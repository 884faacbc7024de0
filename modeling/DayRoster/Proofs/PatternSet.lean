import DayRoster.Proofs.MaskCodec
import Mathlib.Data.List.Destutter

/-!
Patterns as sets. The positions of a pattern are ascending, so a position can be sought by halving,
and a new one can be put in at the place where the search ends. However a pattern was made, it has
the positions that were given and no others, and it is equal to every pattern that has the same
ones.
-/

set_option autoImplicit false

namespace DayRoster.WeekPattern

/-- Seeks `n` in an ascending list, from place `low` up to place `high`. The outcome is the place
of `n`, or as a failure the place at which `n` is missing. -/
def searchBetween (positions : List Nat) (n low high : Nat) (h : high ≤ positions.length) :
    Except Nat Nat :=
  if hlow : low < high then
    let middle := low + (high - low) / 2
    have hmiddle : middle < positions.length := by omega
    if positions[middle] = n then .ok middle
    else if positions[middle] < n then searchBetween positions n (middle + 1) high h
    else searchBetween positions n low middle (by omega)
  else .error low
termination_by high - low

def search (positions : List Nat) (n : Nat) : Except Nat Nat :=
  searchBetween positions n 0 positions.length (Nat.le_refl _)

/-- Does `n` stand behind all entries up to a place and before all others? -/
def MissingAt (positions : List Nat) (n place : Nat) : Prop :=
  place ≤ positions.length ∧
    ∀ i k, positions[i]? = some k → (i < place → k < n) ∧ (place ≤ i → n < k)

private theorem getElem_le {positions : List Nat} (h : positions.Pairwise (· < ·)) {i j : Nat}
    (hij : i ≤ j) (hj : j < positions.length) : positions[i] ≤ positions[j] := by
  rcases Nat.lt_or_eq_of_le hij with hlt | rfl
  · exact Nat.le_of_lt (List.pairwise_iff_getElem.mp h i j (by omega) hj hlt)
  · exact Nat.le_refl _

theorem getElem?_of_searchBetween {positions : List Nat} {n low high place : Nat}
    {h : high ≤ positions.length}
    (hfound : searchBetween positions n low high h = .ok place) : positions[place]? = some n := by
  fun_induction searchBetween positions n low high h with
  | case1 low high h hlow middle hmiddle heq =>
    obtain rfl : middle = place := Except.ok.inj hfound
    exact heq ▸ List.getElem?_eq_getElem hmiddle
  | case2 low high h hlow middle hmiddle hne hlt ih => exact ih hfound
  | case3 low high h hlow middle hmiddle hne hlt ih => exact ih hfound
  | case4 => cases hfound

/-- What lies outside of the part that is left has been compared, so `n` is missing where the part
is empty. -/
theorem missingAt_of_searchBetween {positions : List Nat} (hasc : positions.Pairwise (· < ·))
    {n low high place : Nat} {h : high ≤ positions.length}
    (hbelow : ∀ i k, positions[i]? = some k → i < low → k < n)
    (habove : ∀ i k, positions[i]? = some k → high ≤ i → n < k) (hle : low ≤ high)
    (hmissing : searchBetween positions n low high h = .error place) :
    MissingAt positions n place := by
  fun_induction searchBetween positions n low high h with
  | case1 => cases hmissing
  | case2 low high h hlow middle hmiddle hne hlt ih =>
    refine ih ?_ habove (by omega) hmissing
    intro i k hk hi
    obtain ⟨hlength, rfl⟩ := List.getElem?_eq_some_iff.mp hk
    exact Nat.lt_of_le_of_lt (getElem_le hasc (by omega) hmiddle) hlt
  | case3 low high h hlow middle hmiddle hne hlt ih =>
    refine ih hbelow ?_ (by omega) hmissing
    intro i k hk hi
    obtain ⟨hlength, rfl⟩ := List.getElem?_eq_some_iff.mp hk
    have hmid := getElem_le hasc hi hlength
    omega
  | case4 low high h hlow =>
    obtain rfl : low = place := Except.error.inj hmissing
    obtain rfl : low = high := by omega
    exact ⟨h, fun i k hk => ⟨hbelow i k hk, habove i k hk⟩⟩

theorem MissingAt.not_mem {positions : List Nat} {n place : Nat}
    (h : MissingAt positions n place) : n ∉ positions := by
  intro hn
  obtain ⟨i, hi⟩ := List.mem_iff_getElem?.mp hn
  have hboth := h.2 i n hi
  omega

theorem search_missingAt {positions : List Nat} (hasc : positions.Pairwise (· < ·)) {n place : Nat}
    (h : search positions n = .error place) : MissingAt positions n place := by
  refine missingAt_of_searchBetween hasc ?_ ?_ (Nat.zero_le _) h
  · omega
  · intro i k hk hi
    have hlt := (List.getElem?_eq_some_iff.mp hk).1
    omega

theorem isOk_search_iff {positions : List Nat} (hasc : positions.Pairwise (· < ·)) {n : Nat} :
    (search positions n).isOk ↔ n ∈ positions := by
  cases hsearch : search positions n with
  | ok place =>
    have hn := List.mem_of_getElem? (getElem?_of_searchBetween hsearch)
    exact iff_of_true rfl hn
  | error place =>
    exact iff_of_false Bool.false_ne_true (search_missingAt hasc hsearch).not_mem

def insertAtPlace (positions : List Nat) (n : Nat) : List Nat :=
  match search positions n with
  | .ok _ => positions
  | .error place => positions.insertIdx place n

theorem insertPosition_of_missingAt {positions : List Nat} {n place : Nat}
    (h : MissingAt positions n place) : insertPosition n positions = positions.insertIdx place n := by
  induction positions generalizing place with
  | nil =>
    obtain rfl := Nat.le_zero.mp h.1
    rfl
  | cons k rest ih =>
    obtain ⟨hplace, hentries⟩ := h
    have hk := hentries 0 k rfl
    rw [insertPosition]
    cases place with
    | zero =>
      rw [if_pos (hk.2 (Nat.le_refl 0))]
      rfl
    | succ place =>
      have hlt := hk.1 (Nat.zero_lt_succ place)
      have hrest : MissingAt rest n place := by
        refine ⟨Nat.le_of_succ_le_succ hplace, fun i j hj => ?_⟩
        have hboth := hentries (i + 1) j hj
        omega
      rw [if_neg (by omega), if_neg (by omega), List.insertIdx_succ_cons, ih hrest]

theorem insertPosition_of_mem {positions : List Nat} (hasc : positions.Pairwise (· < ·)) {n : Nat}
    (h : n ∈ positions) : insertPosition n positions = positions := by
  refine (pairwise_insertPosition n hasc).eq_of_mem_iff hasc fun k => ?_
  rw [mem_insertPosition]
  exact or_iff_right_of_imp fun hk => hk ▸ h

theorem positions_insert (s : WeekPattern) (n : Nat) :
    (s.insert n).positions = insertAtPlace s.positions n := by
  change insertPosition n s.positions = _
  rw [insertAtPlace]
  split
  · next place hfound =>
    exact insertPosition_of_mem s.ascending (List.mem_of_getElem? (getElem?_of_searchBetween hfound))
  · next place hmissing =>
    exact insertPosition_of_missingAt (search_missingAt s.ascending hmissing)

theorem contains_eq_isOk_search (s : WeekPattern) (n : Nat) :
    s.contains n = (search s.positions n).isOk := by
  rw [Bool.eq_iff_iff, contains_iff, isOk_search_iff s.ascending]

theorem positions_foldl_insert (s : WeekPattern) (inserted : List Nat) :
    (inserted.foldl insert s).positions = inserted.foldl insertAtPlace s.positions := by
  induction inserted generalizing s with
  | nil => rfl
  | cons n inserted ih => rw [List.foldl_cons, List.foldl_cons, ih, positions_insert]

def sortedOnce (positions : List Nat) : List Nat :=
  (positions.mergeSort (· ≤ ·)).destutter (· ≠ ·)

private theorem sortedOnce_eq_dedup (positions : List Nat) :
    sortedOnce positions = (positions.mergeSort (· ≤ ·)).dedup :=
  (List.pairwise_mergeSort' (· ≤ ·) positions).destutter_eq_dedup

theorem mem_sortedOnce {positions : List Nat} {n : Nat} :
    n ∈ sortedOnce positions ↔ n ∈ positions := by
  rw [sortedOnce_eq_dedup, List.mem_dedup, List.mem_mergeSort]

theorem pairwise_sortedOnce (positions : List Nat) : (sortedOnce positions).Pairwise (· < ·) := by
  rw [sortedOnce_eq_dedup]
  have hsorted := (List.pairwise_mergeSort' (· ≤ ·) positions).sublist (List.dedup_sublist _)
  have hdistinct := List.nodup_dedup (positions.mergeSort (· ≤ ·))
  exact (hsorted.and hdistinct).imp fun h => Nat.lt_of_le_of_ne h.1 h.2

theorem positions_ofList (positions : List Nat) :
    (ofList positions).positions = sortedOnce positions :=
  (ofList positions).ascending.eq_of_mem_iff (pairwise_sortedOnce positions) fun _ =>
    mem_ofList.trans mem_sortedOnce.symm

/-- What a pattern is first made of: nothing, a mask, or the positions that a list or a walk yields,
in any order and with repetitions. -/
inductive Origin
  | nothing
  | mask (text : String)
  | list (positions : List Nat)

def Origin.pattern : Origin → WeekPattern
  | nothing => empty
  | mask text => ofMask text.toList
  | list positions => ofList positions

def Origin.positions : Origin → List Nat
  | nothing => []
  | mask text => markedPlaces text.toList
  | list positions => sortedOnce positions

def Origin.Gives : Origin → Nat → Prop
  | nothing, _ => False
  | mask text, n => MarkedAt text.toList n
  | list positions, n => n ∈ positions

theorem Origin.positions_pattern (origin : Origin) : origin.pattern.positions = origin.positions := by
  cases origin with
  | nothing => rfl
  | mask text => rfl
  | list positions => exact positions_ofList positions

theorem Origin.mem_pattern_iff {origin : Origin} {n : Nat} :
    n ∈ origin.pattern.positions ↔ origin.Gives n := by
  cases origin with
  | nothing => exact List.mem_nil_iff n
  | mask text => exact contains_iff.symm.trans contains_ofMask_iff
  | list positions => exact mem_ofList

/-- However a pattern was made and whatever was put into it, its list of positions is the one that
searches by halving and insertions at their places build, it is ascending, and a search in it finds
the positions that were given and no others. Patterns with the same positions are equal. -/
theorem patterns_are_sets (origin other : Origin) (inserted added : List Nat) :
    let s := inserted.foldl insert origin.pattern
    let t := added.foldl insert other.pattern
    let kept := inserted.foldl insertAtPlace origin.positions
    s.positions = kept ∧
      kept.Pairwise (· < ·) ∧
      (∀ n, s.contains n = (search kept n).isOk) ∧
      (∀ n, s.contains n ↔ origin.Gives n ∨ n ∈ inserted) ∧
      (s = t ↔ ∀ n, s.contains n ↔ t.contains n) := by
  intro s t kept
  have hkept : s.positions = kept := by
    rw [positions_foldl_insert, Origin.positions_pattern]
  refine ⟨hkept, hkept ▸ s.ascending, fun n => ?_, fun n => ?_, eq_iff_contains⟩
  · rw [contains_eq_isOk_search, hkept]
  · rw [contains_iff, mem_foldl_insert, Origin.mem_pattern_iff]
    exact or_comm

end DayRoster.WeekPattern
