import Mathlib

/-!
# Lists with separators

A list of at least one item with a separator between any two.  Such a list spells a word:
the spellings of its items with the separators between them.  A list of lists can be joined
into one, and one can be split at some of its separators, without a change of the word.
-/

namespace PdiStack

open List

/-- Items with separators between them. -/
inductive Separated (σ α : Type*) where
  | single (item : α)
  | cons (item : α) (sep : σ) (rest : Separated σ α)
deriving DecidableEq, Repr

namespace Separated

variable {σ α : Type*}

/-- The word it spells. -/
def yield (spell : α → List σ) : Separated σ α → List σ
  | single item => spell item
  | cons item sep rest => spell item ++ sep :: rest.yield spell

def items : Separated σ α → List α
  | single item => [item]
  | cons item _ rest => item :: rest.items

def seps : Separated σ α → List σ
  | single _ => []
  | cons _ sep rest => sep :: rest.seps

theorem items_ne_nil (list : Separated σ α) : list.items ≠ [] := by
  cases list <;> exact cons_ne_nil _ _

variable {list : Separated σ α} {spell : α → List σ}

theorem yield_ne_nil (hspell : ∀ item ∈ list.items, spell item ≠ []) : list.yield spell ≠ [] := by
  cases list with
  | single item => exact hspell item mem_cons_self
  | cons item sep rest => exact append_ne_nil_of_right_ne_nil _ (cons_ne_nil _ _)

/-- There are at most as many items as letters, when no item is spelled by nothing. -/
theorem length_items_le (hspell : ∀ item ∈ list.items, spell item ≠ []) :
    list.items.length ≤ (list.yield spell).length := by
  induction list with
  | single item => exact length_pos_of_ne_nil (hspell item mem_cons_self)
  | cons item sep rest ih =>
    have hrest := ih fun other hother => hspell other (mem_cons_of_mem _ hother)
    simp only [items, yield, length_cons, length_append]
    omega

/-- The letters of one kind, when no separator is of that kind. -/
theorem filter_yield {keep : σ → Bool} (hseps : ∀ sep ∈ list.seps, keep sep = false) :
    (list.yield spell).filter keep = list.items.flatMap fun item => (spell item).filter keep := by
  induction list with
  | single item => simp [yield, items]
  | cons item sep rest ih =>
    obtain ⟨hsep, hrest⟩ := forall_mem_cons.mp hseps
    simp [yield, items, ih hrest, hsep]

theorem infix_yield {item : α} (hitem : item ∈ list.items) : spell item <:+: list.yield spell := by
  induction list with
  | single other =>
    obtain rfl := mem_singleton.mp hitem
    exact infix_rfl
  | cons first sep rest ih =>
    rcases mem_cons.mp hitem with rfl | hrest
    · exact (prefix_append _ _).isInfix
    · exact (ih hrest).trans ⟨spell first ++ [sep], [], by simp [yield]⟩

def append : Separated σ α → σ → Separated σ α → Separated σ α
  | single item, sep, last => cons item sep last
  | cons item inner rest, sep, last => cons item inner (rest.append sep last)

def join : Separated σ (Separated σ α) → Separated σ α
  | single list => list
  | cons list sep rest => list.append sep rest.join

theorem yield_append (spell : α → List σ) (first : Separated σ α) (sep : σ)
    (last : Separated σ α) :
    (first.append sep last).yield spell = first.yield spell ++ sep :: last.yield spell := by
  induction first with
  | single item => rfl
  | cons item inner rest ih => simp [append, yield, ih, append_assoc, cons_append]

theorem items_append (first : Separated σ α) (sep : σ) (last : Separated σ α) :
    (first.append sep last).items = first.items ++ last.items := by
  induction first with
  | single item => rfl
  | cons item inner rest ih => simp [append, items, ih, cons_append]

theorem seps_append (first : Separated σ α) (sep : σ) (last : Separated σ α) :
    (first.append sep last).seps = first.seps ++ sep :: last.seps := by
  induction first with
  | single item => rfl
  | cons item inner rest ih => simp [append, seps, ih, cons_append]

theorem yield_join (spell : α → List σ) (list : Separated σ (Separated σ α)) :
    list.join.yield spell = list.yield (yield spell) := by
  induction list with
  | single inner => rfl
  | cons inner sep rest ih => rw [join, yield_append, ih, yield]

theorem mem_items_join {list : Separated σ (Separated σ α)} {item : α} :
    item ∈ list.join.items ↔ ∃ inner ∈ list.items, item ∈ inner.items := by
  induction list with
  | single inner => simp [join, items]
  | cons inner sep rest ih => simp [join, items, items_append, ih]

theorem mem_seps_join {list : Separated σ (Separated σ α)} {sep : σ} :
    sep ∈ list.join.seps ↔ sep ∈ list.seps ∨ ∃ inner ∈ list.items, sep ∈ inner.seps := by
  induction list with
  | single inner => simp [join, items, seps]
  | cons inner outer rest ih =>
    simp only [join, seps_append, mem_append, mem_cons, ih, seps, items, exists_eq_or_imp]
    constructor
    · rintro (hinner | rfl | hrest | hrest)
      · exact .inr (.inl hinner)
      · exact .inl (.inl rfl)
      · exact .inl (.inr hrest)
      · exact .inr (.inr hrest)
    · rintro ((rfl | hrest) | hinner | hrest)
      · exact .inr (.inl rfl)
      · exact .inr (.inr (.inl hrest))
      · exact .inl hinner
      · exact .inr (.inr (.inr hrest))

variable (outer : σ → Bool)

def consFirst (item : α) (sep : σ) : Separated σ (Separated σ α) → Separated σ (Separated σ α)
  | single list => single (cons item sep list)
  | cons list next rest => cons (cons item sep list) next rest

def split : Separated σ α → Separated σ (Separated σ α)
  | single item => single (single item)
  | cons item sep rest =>
    if outer sep then cons (single item) sep rest.split else consFirst item sep rest.split

theorem join_consFirst (item : α) (sep : σ) (list : Separated σ (Separated σ α)) :
    (consFirst item sep list).join = cons item sep list.join := by
  cases list <;> rfl

theorem join_split (list : Separated σ α) : (list.split outer).join = list := by
  induction list with
  | single item => rfl
  | cons item sep rest ih =>
    rw [split]
    split
    · rw [join, ih, append]
    · rw [join_consFirst, ih]

theorem seps_consFirst (item : α) (sep : σ) (list : Separated σ (Separated σ α)) :
    (consFirst item sep list).seps = list.seps := by
  cases list <;> rfl

theorem outer_of_mem_seps_split : ∀ sep ∈ (list.split outer).seps, outer sep = true := by
  induction list with
  | single item => exact nofun
  | cons item sep rest ih =>
    rw [split]
    split
    case isTrue houter => exact forall_mem_cons.mpr ⟨houter, ih⟩
    case isFalse =>
      rw [seps_consFirst]
      exact ih

theorem inner_of_mem_items_split :
    ∀ inner ∈ (list.split outer).items, ∀ sep ∈ inner.seps, outer sep = false := by
  induction list with
  | single item =>
    intro inner hinner
    rw [mem_singleton.mp hinner]
    exact nofun
  | cons item sep rest ih =>
    rw [split]
    split
    case isTrue => exact forall_mem_cons.mpr ⟨nofun, ih⟩
    case isFalse hinner =>
      have hsep : outer sep = false := by simpa using hinner
      cases hrest : rest.split outer with
      | single list =>
        rw [hrest] at ih
        refine forall_mem_cons.mpr ⟨?_, nofun⟩
        exact forall_mem_cons.mpr ⟨hsep, ih list mem_cons_self⟩
      | cons list next others =>
        rw [hrest] at ih
        obtain ⟨hlist, hothers⟩ := forall_mem_cons.mp ih
        exact forall_mem_cons.mpr ⟨forall_mem_cons.mpr ⟨hsep, hlist⟩, hothers⟩

end Separated

end PdiStack
