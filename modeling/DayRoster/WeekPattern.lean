/-!
Patterns of the week: sets of positions, counted from the first day of the week. A pattern is the
ascending list of its positions, so two patterns are equal when they have the same positions. It is
written as a mask, in which a mark stands at each position of the pattern.
-/

set_option autoImplicit false

namespace DayRoster

/-- A set of positions in the week. Positions from 7 on are kept, but no day has them. -/
@[ext]
structure WeekPattern where
  positions : List Nat
  ascending : positions.Pairwise (· < ·)
  deriving DecidableEq

namespace WeekPattern

def empty : WeekPattern := ⟨[], .nil⟩

def isEmpty (s : WeekPattern) : Bool := s.positions.isEmpty

def size (s : WeekPattern) : Nat := s.positions.length

def contains (s : WeekPattern) (n : Nat) : Bool := s.positions.contains n

@[simp]
theorem contains_iff {s : WeekPattern} {n : Nat} : s.contains n ↔ n ∈ s.positions :=
  List.contains_iff_mem

def isMark (c : Char) : Bool := c = 'o' ∨ c = 'O' ∨ c = '0'

def markedPlaces (mask : List Char) : List Nat :=
  (mask.zipIdx.filter fun entry => isMark entry.1).map Prod.snd

theorem markedPlaces_sublist (mask : List Char) :
    (markedPlaces mask).Sublist (List.range mask.length) := by
  have h := (List.filter_sublist (p := fun entry => isMark entry.1) (l := mask.zipIdx)).map Prod.snd
  rw [List.zipIdx_map_snd, ← List.range_eq_range'] at h
  exact h

/-- The pattern of the marked places of a mask. Any other character leaves its place out. -/
def ofMask (mask : List Char) : WeekPattern where
  positions := markedPlaces mask
  ascending := List.pairwise_lt_range.sublist (markedPlaces_sublist mask)

/-- Puts a position into an ascending list, unless the list has it. -/
def insertPosition (n : Nat) : List Nat → List Nat
  | [] => [n]
  | k :: rest =>
    if n < k then n :: k :: rest
    else if n = k then k :: rest
    else k :: insertPosition n rest

theorem mem_insertPosition {n x : Nat} {positions : List Nat} :
    x ∈ insertPosition n positions ↔ x = n ∨ x ∈ positions := by
  induction positions with
  | nil => simp [insertPosition]
  | cons k rest ih =>
    rw [insertPosition]
    split
    · simp
    · split
      · next h => simp [h]
      · simp only [List.mem_cons, ih]
        exact or_left_comm

theorem pairwise_insertPosition (n : Nat) {positions : List Nat}
    (h : positions.Pairwise (· < ·)) : (insertPosition n positions).Pairwise (· < ·) := by
  induction positions with
  | nil => simp [insertPosition]
  | cons k rest ih =>
    rw [List.pairwise_cons] at h
    rw [insertPosition]
    split
    · next hlt =>
      rw [List.pairwise_cons, List.pairwise_cons]
      refine ⟨fun x hx => ?_, h⟩
      rcases List.mem_cons.mp hx with rfl | hx
      · exact hlt
      · exact Nat.lt_trans hlt (h.1 x hx)
    · split
      · exact List.pairwise_cons.mpr h
      · rw [List.pairwise_cons]
        refine ⟨fun x hx => ?_, ih h.2⟩
        rcases mem_insertPosition.mp hx with rfl | hx
        · omega
        · exact h.1 x hx

def insert (s : WeekPattern) (n : Nat) : WeekPattern where
  positions := insertPosition n s.positions
  ascending := pairwise_insertPosition n s.ascending

def ofList (positions : List Nat) : WeekPattern := positions.foldl insert empty

theorem mem_foldl_insert {n : Nat} {positions : List Nat} {s : WeekPattern} :
    n ∈ (positions.foldl insert s).positions ↔ n ∈ positions ∨ n ∈ s.positions := by
  induction positions generalizing s with
  | nil => simp
  | cons k positions ih =>
    have hinsert : n ∈ (s.insert k).positions ↔ n = k ∨ n ∈ s.positions := mem_insertPosition
    rw [List.foldl_cons, ih, hinsert, List.mem_cons]
    exact or_left_comm.trans or_assoc.symm

@[simp]
theorem mem_ofList {n : Nat} {positions : List Nat} :
    n ∈ (ofList positions).positions ↔ n ∈ positions := by
  rw [ofList, mem_foldl_insert]
  simp [empty]

/-- Does a pattern have positions, but none that a day can have? -/
def matchesNoDay (s : WeekPattern) : Bool := !s.isEmpty && s.positions.all fun n => 7 ≤ n

/-- Does a pattern let the days at a position pass? The empty pattern lets all days pass. -/
def admits (s : WeekPattern) (n : Nat) : Bool := s.isEmpty || s.contains n

/-- The length of the mask of a pattern: a whole week, and more if a position lies beyond it. -/
def maskLength (s : WeekPattern) : Nat :=
  match s.positions.getLast? with
  | none => 7
  | some last => max (last + 1) 7

def mask (s : WeekPattern) : List Char :=
  (List.range s.maskLength).map fun n => if s.contains n then 'o' else '-'

def text (s : WeekPattern) : String := String.ofList s.mask

end WeekPattern

end DayRoster
