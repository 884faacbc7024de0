/-!
Texts as lists of characters. `Text.lines` and `Text.tokens` take a text apart: lines end at a line
feed or a carriage return, are trimmed of blanks, and are left out if nothing remains; tokens are
what stands between spaces and tabs, and other blank characters are part of a token.
`Decimal.padded` writes a number with at least a given count of digits and `Decimal.value` reads
digits back. A `Reader` takes an item off the front of a text and leaves the rest, or fails. The
choice `p <|> q` of readers is ordered: `q` is tried, from the same place, only where `p` fails, and
an item that `p` has taken is never given back.
-/

set_option autoImplicit false

namespace DayRoster

namespace Text

/-- The Unicode property `White_Space`. -/
def isBlank (c : Char) : Bool :=
  ('\x09' ≤ c ∧ c ≤ '\x0d') ∨ c = ' ' ∨ c = '\u0085' ∨ c = '\u00a0' ∨ c = '\u1680' ∨
    ('\u2000' ≤ c ∧ c ≤ '\u200a') ∨ c = '\u2028' ∨ c = '\u2029' ∨ c = '\u202f' ∨ c = '\u205f' ∨
    c = '\u3000'

def trimEnd (text : List Char) : List Char := (text.reverse.dropWhile isBlank).reverse

def trim (text : List Char) : List Char := trimEnd (text.dropWhile isBlank)

theorem trimEnd_append_of_blank {text blanks : List Char} (h : ∀ c ∈ blanks, isBlank c) :
    trimEnd (text ++ blanks) = trimEnd text := by
  rw [trimEnd, trimEnd, List.reverse_append, List.dropWhile_append_of_pos]
  intro c hc
  exact h c (List.mem_reverse.mp hc)

def isLineEnd (c : Char) : Bool := c = '\n' ∨ c = '\r'

def isGap (c : Char) : Bool := c = ' ' ∨ c = '\t'

/-- The trimmed lines of a text that are not blank. -/
def lines (text : List Char) : List (List Char) :=
  ((text.splitOnP isLineEnd).map trim).filter fun line => !line.isEmpty

def tokens (line : List Char) : List (List Char) :=
  (line.splitOnP isGap).filter fun token => !token.isEmpty

theorem lines_append_cons (first second : List Char) {c : Char} (hc : isLineEnd c) :
    lines (first ++ c :: second) = lines first ++ lines second := by
  rw [lines, List.splitOnP_append_cons first second hc, List.map_append, List.filter_append]
  rfl

end Text

namespace Decimal

/-- The decimal digits of a number, with zeros in front up to `width` digits. -/
def padded (width n : Nat) : List Char := (Nat.toDigits 10 n).leftpad width '0'

def aligned (width n : Nat) : List Char := (Nat.toDigits 10 n).leftpad width ' '

/-- The decimal digits of a number in a field of `width` characters that a minus sign counts in. -/
def signed (width : Nat) (n : Int) : List Char :=
  if n < 0 then '-' :: padded (width - 1) n.natAbs else padded width n.natAbs

def value (digits : List Char) : Nat := Nat.ofDigitChars 10 digits 0

@[simp]
theorem value_padded (width n : Nat) : value (padded width n) = n := by
  simp [value, padded, List.leftpad, Nat.ofDigitChars_append, Nat.ofDigitChars_replicate_zero,
    Nat.ofDigitChars_ten_toDigits]

theorem isDigit_of_mem_padded {width n : Nat} {c : Char} (h : c ∈ padded width n) : c.isDigit := by
  simp only [padded, List.leftpad, List.mem_append, List.mem_replicate] at h
  rcases h with ⟨-, rfl⟩ | h
  · decide
  · exact Nat.isDigit_of_mem_toDigits (by decide) (by decide) h

theorem length_padded {width n : Nat} (h : (Nat.toDigits 10 n).length ≤ width) :
    (padded width n).length = width := by
  rw [padded, List.length_leftpad]
  omega

theorem padded_ne_nil (width n : Nat) : padded width n ≠ [] := by
  simp [padded, List.leftpad, Nat.toDigits_ne_nil]

end Decimal

abbrev Reader (α : Type) : Type := StateT (List Char) Option α

namespace Reader

def satisfying (p : Char → Bool) : Reader Char
  | [] => none
  | c :: rest => if p c then some (c, rest) else none

def char (c : Char) : Reader Char := satisfying (· == c)

def digits : Nat → Reader (List Char)
  | 0 => pure []
  | n + 1 => do
    let d ← satisfying Char.isDigit
    let ds ← digits n
    pure (d :: ds)

/-- Takes all decimal digits in front, of which there must be one. -/
def digitRun : Reader (List Char) := fun text =>
  match text.takeWhile Char.isDigit with
  | [] => none
  | d :: ds => some (d :: ds, text.dropWhile Char.isDigit)

def number (width : Nat) : Reader Nat := Decimal.value <$> digits width

def atEnd : Reader Unit
  | [] => some ((), [])
  | _ :: _ => none

theorem run_orElse {α : Type} (p q : Reader α) (text : List Char) :
    (p <|> q).run text = (p.run text).or (q.run text) := by
  change (StateT.orElse p fun _ => q) text = _
  rw [StateT.orElse]
  cases h : p.run text <;> simp_all [StateT.run]

theorem run_satisfying_cons (p : Char → Bool) (c : Char) (rest : List Char) :
    (satisfying p).run (c :: rest) = if p c then some (c, rest) else none := rfl

theorem run_digits_append {ds : List Char} (h : ∀ c ∈ ds, c.isDigit) (rest : List Char) :
    (digits ds.length).run (ds ++ rest) = some (ds, rest) := by
  induction ds with
  | nil => rfl
  | cons d ds ih =>
    have hd : d.isDigit := h d List.mem_cons_self
    have hds : ∀ c ∈ ds, c.isDigit := fun c hc => h c (List.mem_cons_of_mem d hc)
    simp [digits, run_satisfying_cons, hd, ih hds]

theorem run_number_padded {width n : Nat} (h : (Nat.toDigits 10 n).length ≤ width)
    (rest : List Char) : (number width).run (Decimal.padded width n ++ rest) = some (n, rest) := by
  have hdigits := run_digits_append
    (fun c (hc : c ∈ Decimal.padded width n) => Decimal.isDigit_of_mem_padded hc) rest
  rw [Decimal.length_padded h] at hdigits
  rw [number, StateT.run_map, hdigits]
  simp

end Reader

end DayRoster
