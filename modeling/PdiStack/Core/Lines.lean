import Mathlib

/-!
# Lines of a sequence

A sequence is read as lines that a separator ends.  `lines` lists them, and what
stands behind the last separator counts as a line of its own when there is
anything.  `lines_drop` steps from one line to the next by position, which is how
a reader with an offset sees them, and `lines_append` adds to a sequence whose last
line may be unfinished.

A reader that goes through the lines and may stop in between is `foldUntil`.
-/

namespace PdiStack.Lines

open List

section Separated

variable {α : Type*} [DecidableEq α] {sep : α}

/-- The lines of a sequence, without the separators that end them. -/
def lines (sep : α) : List α → List (List α)
  | [] => []
  | item :: rest =>
    if item = sep then
      [] :: lines sep rest
    else
      match lines sep rest with
      | [] => [[item]]
      | line :: more => (item :: line) :: more

def firstLine (sep : α) (items : List α) : List α := items.takeWhile (· ≠ sep)

def ended (sep : α) (items : List α) : List α := items.rdropWhile (· ≠ sep)

def unended (sep : α) (items : List α) : List α := items.rtakeWhile (· ≠ sep)

theorem ended_append_unended (sep : α) (items : List α) : ended sep items ++ unended sep items = items :=
  rdropWhile_append_rtakeWhile ..

theorem notMem_unended (items : List α) : sep ∉ unended sep items := by
  intro hmem
  simpa using mem_rtakeWhile_imp hmem

@[simp]
theorem lines_nil : lines sep [] = [] := rfl

theorem lines_cons_sep {rest : List α} : lines sep (sep :: rest) = [] :: lines sep rest := by
  rw [lines, if_pos rfl]

theorem lines_ne_nil {items : List α} (hitems : items ≠ []) : lines sep items ≠ [] := by
  cases items with
  | nil => exact absurd rfl hitems
  | cons item rest =>
    rw [lines]
    split
    · exact cons_ne_nil _ _
    · split <;> exact cons_ne_nil _ _

theorem lines_of_notMem {items : List α} (hfree : sep ∉ items) (hitems : items ≠ []) :
    lines sep items = [items] := by
  induction items with
  | nil => exact absurd rfl hitems
  | cons item rest ih =>
    have hitem : item ≠ sep := fun hsame => hfree (hsame ▸ mem_cons_self)
    rw [lines, if_neg hitem]
    by_cases hrest : rest = []
    · rw [hrest, lines_nil]
    · rw [ih (fun hmem => hfree (mem_cons_of_mem _ hmem)) hrest]

/-- A line put in front, with its separator. -/
theorem lines_line_append {line : List α} (hfree : sep ∉ line) (rest : List α) :
    lines sep (line ++ sep :: rest) = line :: lines sep rest := by
  induction line with
  | nil => exact lines_cons_sep
  | cons item line ih =>
    have hitem : item ≠ sep := fun hsame => hfree (hsame ▸ mem_cons_self)
    rw [cons_append, lines, if_neg hitem, ih fun hmem => hfree (mem_cons_of_mem _ hmem)]

theorem firstLine_of_notMem {items : List α} (hfree : sep ∉ items) :
    firstLine sep items = items := by
  rw [firstLine, takeWhile_eq_self_iff]
  intro item hitem
  exact decide_eq_true fun hsame => hfree (hsame ▸ hitem)

theorem firstLine_append {line : List α} (hfree : sep ∉ line) (rest : List α) :
    firstLine sep (line ++ sep :: rest) = line := by
  rw [firstLine, takeWhile_append_of_pos]
  · rw [takeWhile_cons_of_neg (by simp), append_nil]
  · intro item hitem
    exact decide_eq_true fun hsame => hfree (hsame ▸ hitem)

/-- The first line, and the lines behind the separator that ends it. -/
theorem lines_eq_cons {items : List α} (hitems : items ≠ []) :
    lines sep items =
      firstLine sep items :: lines sep (items.drop ((firstLine sep items).length + 1)) := by
  by_cases hsep : sep ∈ items
  · obtain ⟨line, rest, rfl, hfree⟩ := eq_append_cons_of_mem hsep
    rw [firstLine_append hfree, lines_line_append hfree, ← drop_drop, drop_left,
      drop_one, tail_cons]
  · rw [firstLine_of_notMem hsep, drop_eq_nil_of_le (Nat.le_succ _), lines_nil,
      lines_of_notMem hsep hitems]

/-- From one line to the next by position. -/
theorem lines_drop {items : List α} {offset : ℕ} (hoffset : offset < items.length) :
    lines sep (items.drop offset) = firstLine sep (items.drop offset) ::
      lines sep (items.drop (offset + (firstLine sep (items.drop offset)).length + 1)) := by
  have hrest : items.drop offset ≠ [] := by
    rw [ne_eq, drop_eq_nil_iff, not_le]
    exact hoffset
  rw [lines_eq_cons hrest, drop_drop, add_assoc]

theorem notMem_of_mem_lines {items line : List α} (hline : line ∈ lines sep items) :
    sep ∉ line := by
  induction items generalizing line with
  | nil => cases hline
  | cons item rest ih =>
    rw [lines] at hline
    split at hline
    case isTrue hitem =>
      rcases mem_cons.mp hline with rfl | hrest
      · exact not_mem_nil
      · exact ih hrest
    case isFalse hitem =>
      split at hline
      case h_1 =>
        rw [mem_singleton.mp hline, mem_singleton]
        exact Ne.symm hitem
      case h_2 first more hlines =>
        rcases mem_cons.mp hline with rfl | hrest
        · rw [mem_cons, not_or]
          exact ⟨Ne.symm hitem, ih (hlines ▸ mem_cons_self)⟩
        · exact ih (hlines ▸ mem_cons_of_mem _ hrest)

/-- Adding behind an ended line adds lines. -/
theorem lines_append_of_ended (items more : List α) :
    lines sep (items ++ sep :: more) = lines sep (items ++ [sep]) ++ lines sep more := by
  induction items with
  | nil => rw [nil_append, nil_append, lines_cons_sep, lines_cons_sep]; rfl
  | cons item rest ih =>
    have hlines : lines sep (rest ++ [sep]) ≠ [] :=
      lines_ne_nil (append_ne_nil_of_right_ne_nil rest (cons_ne_nil sep []))
    obtain ⟨line, others, hsplit⟩ := exists_cons_of_ne_nil hlines
    rw [cons_append, cons_append, lines, lines, ih, hsplit]
    split <;> rfl

theorem ended_eq_nil_or (sep : α) (items : List α) :
    ended sep items = [] ∨ ∃ front, ended sep items = front ++ [sep] := by
  by_cases hended : ended sep items = []
  · exact .inl hended
  · refine .inr ⟨(ended sep items).dropLast, ?_⟩
    have hlast : (ended sep items).getLast hended = sep := by
      by_contra hother
      exact rdropWhile_last_not _ items hended (decide_eq_true hother)
    conv_lhs => rw [← dropLast_append_getLast hended, hlast]

/-- Adding behind any sequence changes its last line, when that is not ended, and
no other. -/
theorem lines_append (items more : List α) :
    lines sep (items ++ more) =
      lines sep (ended sep items) ++ lines sep (unended sep items ++ more) := by
  have hitems := ended_append_unended sep items
  conv_lhs => rw [← hitems, append_assoc]
  rcases ended_eq_nil_or sep items with hnone | ⟨front, hfront⟩
  · rw [hnone, nil_append, lines_nil, nil_append]
  · rw [hfront, append_assoc, singleton_append, lines_append_of_ended]

/-- The lines of a sequence: those that are ended, and what is not. -/
theorem lines_eq_append (sep : α) (items : List α) :
    lines sep items = lines sep (ended sep items) ++ lines sep (unended sep items) := by
  have hlines : lines sep (items ++ []) =
      lines sep (ended sep items) ++ lines sep (unended sep items ++ []) := lines_append items []
  rwa [append_nil, append_nil] at hlines

end Separated

variable {α τ : Type*}

def foldUntil (stop : τ → Bool) (body : α → τ → τ) : List α → τ → τ
  | [], state => state
  | item :: rest, state =>
    if stop state then state else foldUntil stop body rest (body item state)

/-- A search that stops at its first hit. -/
theorem foldUntil_findSome? (find : α → Option τ) (items : List α) :
    foldUntil Option.isSome (fun item _ => find item) items none = items.findSome? find := by
  induction items with
  | nil => rfl
  | cons item rest ih =>
    rw [foldUntil, if_neg (by simp), findSome?_cons]
    cases hfound : find item with
    | none => exact ih
    | some found =>
      cases rest with
      | nil => rfl
      | cons next rest => rw [foldUntil, if_pos (by rfl)]

end PdiStack.Lines
