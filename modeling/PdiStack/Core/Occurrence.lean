import Mathlib

/-!
# First occurrences

`first pattern list` is the first place at which a pattern lies in a list.  Every
fact about it follows from `first_eq_some_iff`, which says that the pattern lies
there and at no earlier place, and `first_eq_none_iff`, which says when there is
none.  The pieces of a split list are told by `of_mem_splitOnP`.
-/

namespace PdiStack.Occurrence

open List Option
variable {α : Type*} [DecidableEq α]

def first (pattern : List α) : List α → Option ℕ
  | [] => if pattern = [] then some 0 else none
  | head :: tail =>
    if pattern.isPrefixOf (head :: tail) then some 0
    else (first pattern tail).map (· + 1)

theorem first_cons (pattern : List α) (head : α) (tail : List α) :
    first pattern (head :: tail) =
      if pattern <+: head :: tail then some 0 else (first pattern tail).map (· + 1) := by
  simp [first, isPrefixOf_iff_prefix]

theorem first_eq_some_iff {pattern list : List α} {place : ℕ} :
    first pattern list = some place ↔
      place ≤ list.length ∧ pattern <+: list.drop place ∧
        ∀ earlier < place, ¬ pattern <+: list.drop earlier := by
  induction list generalizing place with
  | nil =>
    rw [first]
    split
    case isTrue hempty =>
      subst hempty
      rw [some.injEq]
      constructor
      · rintro rfl
        exact ⟨Nat.le_refl _, nil_prefix, fun _ hless => absurd hless (Nat.not_lt_zero _)⟩
      · rintro ⟨hplace, -, -⟩
        exact (Nat.le_zero.mp hplace).symm
    case isFalse hnonempty =>
      simp [hnonempty]
  | cons head tail ih =>
    rw [first_cons]
    split
    case isTrue hhere =>
      rw [some.injEq]
      constructor
      · rintro rfl
        exact ⟨Nat.zero_le _, hhere, fun _ hless => absurd hless (Nat.not_lt_zero _)⟩
      · rintro ⟨-, -, hearlier⟩
        exact (Nat.eq_zero_of_not_pos fun hpos => hearlier 0 hpos hhere).symm
    case isFalse hnot =>
      cases place with
      | zero => simp [hnot]
      | succ place =>
        simp only [map_eq_some_iff, Nat.add_right_cancel_iff, exists_eq_right, ih,
          length_cons, Nat.add_le_add_iff_right]
        refine and_congr_right fun _ => and_congr_right fun _ => ⟨fun h earlier hless => ?_,
          fun h earlier hless => ?_⟩
        · cases earlier with
          | zero => exact hnot
          | succ earlier => exact h earlier (Nat.lt_of_succ_lt_succ hless)
        · exact h (earlier + 1) (Nat.succ_lt_succ hless)

theorem first_eq_none_iff {pattern list : List α} :
    first pattern list = none ↔ ¬ pattern <:+: list := by
  induction list with
  | nil => simp [first]
  | cons head tail ih =>
    rw [first_cons, infix_cons_iff]
    split
    case isTrue hhere => simp [hhere]
    case isFalse hnot => simp [ih, hnot]

theorem first_isSome_iff {pattern list : List α} :
    (first pattern list).isSome ↔ pattern <:+: list := by
  rw [← not_iff_not, ← first_eq_none_iff, Bool.not_eq_true, isSome_eq_false_iff, isNone_iff_eq_none]

omit [DecidableEq α] in
/-- A pattern lies at a place when each of its elements does. -/
theorem prefix_drop_iff {pattern list : List α} {place : ℕ} :
    pattern <+: list.drop place ↔
      ∀ index < pattern.length, list[place + index]? = pattern[index]? := by
  rw [prefix_iff_getElem?]
  simp only [getElem?_drop]
  refine forall_congr' fun index => ⟨fun h hindex => ?_, fun h hindex => ?_⟩
  · rw [h hindex, getElem?_eq_getElem hindex]
  · rw [h hindex, getElem?_eq_getElem hindex]

section Found

variable {pattern list : List α} {place : ℕ}

theorem prefix_of_first (hfound : first pattern list = some place) : pattern <+: list.drop place :=
  (first_eq_some_iff.mp hfound).2.1

omit [DecidableEq α] in
theorem infix_of_prefix_drop (hthere : pattern <+: list.drop place) : pattern <:+: list :=
  hthere.isInfix.trans (drop_suffix place list).isInfix

/-- A found pattern lies inside the list as a whole. -/
theorem add_length_le_of_first (hfound : first pattern list = some place) :
    place + pattern.length ≤ list.length := by
  obtain ⟨hplace, hthere, -⟩ := first_eq_some_iff.mp hfound
  have hlength := hthere.length_le
  rw [length_drop] at hlength
  omega

/-- No occurrence comes before the first one. -/
theorem first_le (hfound : first pattern list = some place) {other : ℕ}
    (hother : pattern <+: list.drop other) : place ≤ other := by
  obtain ⟨-, -, hearlier⟩ := first_eq_some_iff.mp hfound
  exact Nat.le_of_not_lt fun hless => hearlier other hless hother

end Found

omit [DecidableEq α] in
/-- The pieces between separators are made of the items that are none. -/
theorem of_mem_splitOnP (isSep : α → Bool) (list : List α) :
    ∀ piece ∈ list.splitOnP isSep, ∀ item ∈ piece, item ∈ list ∧ isSep item = false := by
  induction list with
  | nil => simp
  | cons first rest ih =>
    have hrest : ∀ piece ∈ rest.splitOnP isSep, ∀ item ∈ piece,
        item ∈ first :: rest ∧ isSep item = false := fun piece hpiece item hitem =>
      (ih piece hpiece item hitem).imp_left (mem_cons_of_mem _)
    rw [splitOnP_cons_eq_if_modifyHead]
    split
    case isTrue => exact forall_mem_cons.mpr ⟨nofun, hrest⟩
    case isFalse hfirst =>
      obtain ⟨head, tail, hsplit⟩ := exists_cons_of_ne_nil (splitOnP_ne_nil isSep rest)
      rw [hsplit, forall_mem_cons] at hrest
      rw [hsplit, modifyHead_cons, forall_mem_cons, forall_mem_cons]
      exact ⟨⟨⟨mem_cons_self, Bool.eq_false_iff.mpr hfirst⟩, hrest.1⟩, hrest.2⟩

end PdiStack.Occurrence
