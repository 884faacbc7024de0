import DayRoster.WeekPattern
import Mathlib.Data.List.Sort

/-!
Masks and the patterns that they stand for. A pattern is determined by its members, a position
belongs to the pattern of a mask when the mask has a mark there, and the mask of a pattern is read
back as that pattern. So the masks that are printed are normal forms: each mask has one, and two
masks have the same one when they have their marks at the same places.
-/

set_option autoImplicit false

namespace DayRoster.WeekPattern

theorem eq_of_mem_iff {s t : WeekPattern} (h : ∀ n, n ∈ s.positions ↔ n ∈ t.positions) : s = t :=
  WeekPattern.ext (s.ascending.eq_of_mem_iff t.ascending h)

theorem eq_iff_contains {s t : WeekPattern} : s = t ↔ ∀ n, s.contains n ↔ t.contains n := by
  simp only [contains_iff]
  exact ⟨fun h _ => h ▸ Iff.rfl, eq_of_mem_iff⟩

theorem mem_markedPlaces {mask : List Char} {n : Nat} :
    n ∈ markedPlaces mask ↔ ∃ c, mask[n]? = some c ∧ isMark c := by
  simp [markedPlaces, List.mem_zipIdx_iff_getElem?]

private theorem le_getLast_of_mem (s : WeekPattern) {n last : Nat} (hn : n ∈ s.positions)
    (hlast : s.positions.getLast? = some last) : n ≤ last := by
  obtain ⟨front, hfront⟩ := List.getLast?_eq_some_iff.mp hlast
  have hasc := s.ascending
  rw [hfront, List.pairwise_append] at hasc
  rw [hfront, List.mem_append, List.mem_singleton] at hn
  rcases hn with hn | rfl
  · exact Nat.le_of_lt (hasc.2.2 n hn last List.mem_cons_self)
  · exact Nat.le_refl n

theorem lt_maskLength_of_mem (s : WeekPattern) {n : Nat} (hn : n ∈ s.positions) :
    n < s.maskLength := by
  rw [maskLength]
  split
  · next hnone => simp_all
  · next last hlast =>
    have := s.le_getLast_of_mem hn hlast
    omega

theorem seven_le_maskLength (s : WeekPattern) : 7 ≤ s.maskLength := by
  rw [maskLength]
  split
  · exact Nat.le_refl 7
  · exact Nat.le_max_right _ 7

@[simp]
theorem length_mask (s : WeekPattern) : s.mask.length = s.maskLength := by
  rw [mask, List.length_map, List.length_range]

theorem getElem?_mask (s : WeekPattern) {n : Nat} (h : n < s.maskLength) :
    s.mask[n]? = some (if s.contains n then 'o' else '-') := by
  rw [mask, List.getElem?_map, List.getElem?_range h]
  rfl

private theorem mem_markedPlaces_mask (s : WeekPattern) {n : Nat} :
    n ∈ markedPlaces s.mask ↔ n ∈ s.positions := by
  rw [mem_markedPlaces]
  constructor
  · rintro ⟨c, hc, hmark⟩
    have hlt : n < s.maskLength := by
      rw [← length_mask]
      exact (List.getElem?_eq_some_iff.mp hc).1
    rw [getElem?_mask s hlt, Option.some.injEq] at hc
    by_cases hn : s.contains n
    · exact contains_iff.mp hn
    · rw [if_neg hn] at hc
      subst hc
      exact absurd hmark (by decide)
  · intro hn
    refine ⟨'o', ?_, by decide⟩
    rw [getElem?_mask s (s.lt_maskLength_of_mem hn), if_pos (contains_iff.mpr hn)]

theorem ofMask_mask (s : WeekPattern) : ofMask s.mask = s :=
  eq_of_mem_iff fun _ => s.mem_markedPlaces_mask

theorem mem_mask {s : WeekPattern} {c : Char} (h : c ∈ s.mask) : c = 'o' ∨ c = '-' := by
  obtain ⟨n, -, rfl⟩ := List.mem_map.mp h
  split
  · exact .inl rfl
  · exact .inr rfl

theorem mask_ne_nil (s : WeekPattern) : s.mask ≠ [] := by
  have := s.seven_le_maskLength
  rw [← List.length_pos_iff, mask, List.length_map, List.length_range]
  omega

theorem eq_empty_of_isEmpty {s : WeekPattern} (h : s.isEmpty) : s = empty :=
  WeekPattern.ext (List.isEmpty_iff.mp h)

def MarkedAt (mask : List Char) (n : Nat) : Prop :=
  ∃ c, mask[n]? = some c ∧ (c = 'o' ∨ c = 'O' ∨ c = '0')

theorem contains_ofMask_iff {mask : List Char} {n : Nat} :
    (ofMask mask).contains n ↔ MarkedAt mask n := by
  rw [contains_iff]
  change n ∈ markedPlaces mask ↔ _
  simp only [mem_markedPlaces, isMark, decide_eq_true_eq, MarkedAt]

theorem ofMask_eq_iff {mask other : List Char} :
    ofMask mask = ofMask other ↔ ∀ n, MarkedAt mask n ↔ MarkedAt other n := by
  simp only [eq_iff_contains, contains_ofMask_iff]

theorem toList_text (s : WeekPattern) : s.text.toList = s.mask := String.toList_ofList

theorem text_inj {s t : WeekPattern} : s.text = t.text ↔ s = t := by
  constructor
  · intro h
    rw [← s.ofMask_mask, ← t.ofMask_mask, ← toList_text, ← toList_text, h]
  · exact congrArg text

theorem maskLength_le_iff {s : WeekPattern} {n : Nat} :
    s.maskLength ≤ n ↔ 7 ≤ n ∧ ∀ k ∈ s.positions, k + 1 ≤ n := by
  constructor
  · intro h
    exact ⟨s.seven_le_maskLength.trans h, fun k hk => (s.lt_maskLength_of_mem hk).trans_le h⟩
  · rintro ⟨hweek, hpositions⟩
    rw [maskLength]
    split
    · exact hweek
    · next last hlast =>
      exact Nat.max_le.mpr ⟨hpositions last (List.mem_of_getLast? hlast), hweek⟩

theorem maskLength_eq (s : WeekPattern) :
    s.maskLength = max 7 (s.positions.max?.elim 0 (· + 1)) := by
  refine eq_of_forall_ge_iff fun n => ?_
  rw [maskLength_le_iff, Nat.max_le]
  refine and_congr_right fun hweek => ?_
  cases hmax : s.positions.max? with
  | none => simp [List.max?_eq_none_iff.mp hmax]
  | some greatest =>
    obtain ⟨hmem, hle⟩ := List.max?_eq_some_iff.mp hmax
    constructor
    · exact fun h => h greatest hmem
    · exact fun h k hk => (Nat.succ_le_succ (hle k hk)).trans h

/-- The masks that are printed: they hold no other character than `o` and `-`, they cover a week,
and one that goes beyond a week ends with a mark. -/
def IsNormal (mask : List Char) : Prop :=
  mask ⊆ ['o', '-'] ∧ 7 ≤ mask.length ∧ (7 < mask.length → mask.getLast? = some 'o')

theorem isNormal_mask (s : WeekPattern) : IsNormal s.mask := by
  refine ⟨fun c hc => ?_, ?_, fun hlong => ?_⟩
  · rcases mem_mask hc with rfl | rfl <;> decide
  · exact s.length_mask.symm ▸ s.seven_le_maskLength
  · rw [length_mask] at hlong
    have hlast : s.contains (s.maskLength - 1) := by
      by_contra hnot
      -- Without a mark at its end the mask could be shorter.
      have hshort : s.maskLength ≤ s.maskLength - 1 := by
        refine maskLength_le_iff.mpr ⟨by omega, fun k hk => ?_⟩
        have hlt := s.lt_maskLength_of_mem hk
        have hne : k ≠ s.maskLength - 1 := by
          rintro rfl
          exact hnot (contains_iff.mpr hk)
        omega
      omega
    rw [List.getLast?_eq_getElem?, length_mask, getElem?_mask s (by omega), if_pos hlast]

theorem maskLength_ofMask {mask : List Char} (h : IsNormal mask) :
    (ofMask mask).maskLength = mask.length := by
  obtain ⟨-, hweek, hend⟩ := h
  apply Nat.le_antisymm
  · refine maskLength_le_iff.mpr ⟨hweek, fun k hk => ?_⟩
    obtain ⟨c, hc, -⟩ := contains_ofMask_iff.mp (contains_iff.mpr hk)
    exact (List.getElem?_eq_some_iff.mp hc).1
  · rcases Nat.lt_or_eq_of_le hweek with hlong | hseven
    · have hlast : MarkedAt mask (mask.length - 1) :=
        ⟨'o', List.getLast?_eq_getElem?.symm.trans (hend hlong), .inl rfl⟩
      have hlt := lt_maskLength_of_mem _ (contains_iff.mp (contains_ofMask_iff.mpr hlast))
      omega
    · exact hseven.symm ▸ seven_le_maskLength _

theorem mask_ofMask_eq_self_iff {mask : List Char} :
    (ofMask mask).mask = mask ↔ IsNormal mask := by
  constructor
  · intro h
    exact h ▸ isNormal_mask (ofMask mask)
  · intro h
    have hlength := maskLength_ofMask h
    refine List.ext_getElem? fun n => ?_
    rcases Nat.lt_or_ge n mask.length with hn | hn
    · rw [getElem?_mask _ (hlength ▸ hn), List.getElem?_eq_getElem hn, Option.some.injEq]
      have hmarked : (ofMask mask).contains n ↔ MarkedAt mask n := contains_ofMask_iff
      rw [MarkedAt, List.getElem?_eq_getElem hn] at hmarked
      have hc : mask[n] = 'o' ∨ mask[n] = '-' := by simpa using h.1 (List.getElem_mem hn)
      rcases hc with hc | hc
      · rw [hc] at hmarked ⊢
        exact if_pos (hmarked.mpr ⟨'o', rfl, .inl rfl⟩)
      · rw [hc] at hmarked ⊢
        refine if_neg (mt hmarked.mp ?_)
        rintro ⟨_, ⟨⟩, hmark⟩
        revert hmark
        decide
    · rw [List.getElem?_eq_none hn, List.getElem?_eq_none (by rw [length_mask, hlength]; exact hn)]

theorem text_ofMask_eq_self_iff {mask : String} :
    (ofMask mask.toList).text = mask ↔ IsNormal mask.toList := by
  rw [← mask_ofMask_eq_self_iff, ← toList_text, String.toList_inj]

/-- What is printed for a pattern is read back as that pattern, and it is as long as a week and the
positions need. Two masks are printed alike after reading when they have their marks at the same
places. So printing a mask that was read gives its normal form, which is marked where the mask is,
and which a second reading and printing leaves as it is. -/
theorem text_codec (s : WeekPattern) (mask other : String) :
    let normal : String → String := fun written => (ofMask written.toList).text
    s.text.toList ⊆ ['o', '-'] ∧
      s.text.length = max 7 (s.positions.max?.elim 0 (· + 1)) ∧
      ofMask s.text.toList = s ∧
      (normal mask = normal other ↔ ∀ n, MarkedAt mask.toList n ↔ MarkedAt other.toList n) ∧
      (∀ n, MarkedAt (normal mask).toList n ↔ MarkedAt mask.toList n) ∧
      normal (normal mask) = normal mask ∧
      (normal mask = mask ↔ IsNormal mask.toList) := by
  intro normal
  have hread (t : WeekPattern) : ofMask t.text.toList = t := by
    rw [toList_text, ofMask_mask]
  refine ⟨?_, ?_, hread s, ?_, ?_, ?_, text_ofMask_eq_self_iff⟩
  · rw [toList_text]
    exact s.isNormal_mask.1
  · rw [← String.length_toList, toList_text, length_mask, maskLength_eq]
  · exact text_inj.trans ofMask_eq_iff
  · exact ofMask_eq_iff.mp (hread _)
  · exact congrArg text (hread _)

end DayRoster.WeekPattern
