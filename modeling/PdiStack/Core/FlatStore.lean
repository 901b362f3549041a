import Mathlib

/-!
# Flat stores of cells

A flat store is a fixed number of cells addressed from zero.  A range is read as
a list and written from a list, and both fail when the range leaves the store.
The lemmas say what a read sees after a write: exactly the written cells inside
the range, and exactly the old cells outside of it.
-/

namespace PdiStack.FlatStore

open List Function
variable {α : Type*}

def slice (cell : ℕ → α) (offset : ℕ) : ℕ → List α
  | 0 => []
  | length + 1 => cell offset :: slice cell (offset + 1) length

/-- The cells after `values` has been laid over the range starting at `offset`. -/
def splice (cell : ℕ → α) (offset : ℕ) (values : List α) (address : ℕ) : α :=
  if offset ≤ address then values.getD (address - offset) (cell address) else cell address

variable {sizes : List ℕ} {address index length size : ℕ} (start : ℕ) (cell : ℕ → α) (offset : ℕ)
  (values : List α)

@[simp] theorem slice_zero : slice cell offset 0 = [] := rfl

@[simp] theorem length_slice (length : ℕ) : (slice cell offset length).length = length := by
  induction length generalizing offset with
  | zero => rfl
  | succ length ih => simp [slice, ih]

/-- A slice only depends on the cells of its range. -/
theorem slice_congr {left right : ℕ → α} {offset : ℕ}
    (hcell : ∀ address, offset ≤ address → address < offset + length →
      left address = right address) :
    slice left offset length = slice right offset length := by
  induction length generalizing offset with
  | zero => rfl
  | succ length ih =>
    simp only [slice]
    rw [hcell offset (le_refl _) (by omega),
      ih fun address hlower hupper => hcell address (by omega) (by omega)]

theorem slice_add (first second : ℕ) :
    slice cell offset (first + second) =
      slice cell offset first ++ slice cell (offset + first) second := by
  induction first generalizing offset with
  | zero => simp
  | succ first ih =>
    rw [Nat.succ_add]
    simp only [slice, ih]
    congr 3
    omega

theorem take_slice {count : ℕ} (hcount : count ≤ length) :
    (slice cell offset length).take count = slice cell offset count := by
  obtain ⟨rest, rfl⟩ := Nat.exists_eq_add_of_le hcount
  rw [slice_add, take_append_of_le_length (by simp), take_of_length_le (by simp)]

/-- A slice that is a concatenation splits into the slices of its parts. -/
theorem slice_eq_append_iff {cell : ℕ → α} {offset : ℕ} {first second : List α} :
    slice cell offset (first.length + second.length) = first ++ second ↔
      slice cell offset first.length = first ∧
        slice cell (offset + first.length) second.length = second := by
  rw [slice_add]
  constructor
  · intro heq
    exact append_inj heq (by simp)
  · rintro ⟨hfirst, hsecond⟩
    rw [hfirst, hsecond]

theorem splice_of_lt {offset : ℕ} (hlt : address < offset) :
    splice cell offset values address = cell address := by
  simp [splice, Nat.not_le.mpr hlt]

theorem splice_of_ge {offset : ℕ} (hge : offset + values.length ≤ address) :
    splice cell offset values address = cell address := by
  unfold splice
  split
  · rw [getD_eq_default _ _ (by omega)]
  · rfl

@[simp] theorem splice_nil : splice cell offset [] = cell := by
  funext address
  simp [splice]

theorem splice_cons (value : α) (values : List α) :
    splice cell offset (value :: values) =
      splice (update cell offset value) (offset + 1) values := by
  funext address
  rcases lt_trichotomy address offset with hlt | rfl | hgt
  · rw [splice_of_lt _ _ hlt, splice_of_lt _ _ (by omega), update_of_ne (by omega)]
  · simp [splice]
  · obtain ⟨gap, rfl⟩ := Nat.exists_eq_add_of_lt hgt
    have hindex : offset + gap + 1 - offset = gap + 1 := by omega
    have hindex' : offset + gap + 1 - (offset + 1) = gap := by omega
    rw [splice, splice, if_pos (by omega), if_pos (by omega), hindex, hindex',
      update_of_ne (by omega), getD_cons_succ]

theorem splice_append (first second : List α) :
    splice cell offset (first ++ second) =
      splice (splice cell offset first) (offset + first.length) second := by
  induction first generalizing cell offset with
  | nil => simp
  | cons value first ih =>
    rw [cons_append, splice_cons, splice_cons, ih, length_cons]
    congr 1
    omega

/-- A write is read back whole. -/
@[simp] theorem slice_splice_self :
    slice (splice cell offset values) offset values.length = values := by
  induction values generalizing cell offset with
  | nil => rfl
  | cons value values ih =>
    rw [splice_cons, length_cons, slice, splice_of_lt _ _ (Nat.lt_succ_self _), update_self, ih]

/-- Frame rule: a write leaves every range that it does not meet as it was. -/
theorem slice_splice_of_disjoint {offset target : ℕ}
    (hdisjoint : target + length ≤ offset ∨ offset + values.length ≤ target) :
    slice (splice cell offset values) target length = slice cell target length := by
  refine slice_congr fun address hlower hupper => ?_
  rcases hdisjoint with hbefore | hafter
  · exact splice_of_lt _ _ (by omega)
  · exact splice_of_ge _ _ (by omega)

def spliceAll (cell : ℕ → α) (writes : List (ℕ × List α)) : ℕ → α :=
  writes.foldl (fun cell write => splice cell write.1 write.2) cell

theorem spliceAll_cons (write : ℕ × List α) (writes : List (ℕ × List α)) :
    spliceAll cell (write :: writes) = spliceAll (splice cell write.1 write.2) writes := rfl

def Apart (left right : ℕ × List α) : Prop :=
  left.1 + left.2.length ≤ right.1 ∨ right.1 + right.2.length ≤ left.1

/-- A cell outside every written range keeps its value. -/
theorem spliceAll_of_outside {writes : List (ℕ × List α)}
    (houtside : ∀ write ∈ writes, address < write.1 ∨ write.1 + write.2.length ≤ address) :
    spliceAll cell writes address = cell address := by
  induction writes generalizing cell with
  | nil => rfl
  | cons write writes ih =>
    rw [spliceAll_cons, ih _ fun other hother => houtside other (mem_cons_of_mem _ hother)]
    rcases houtside write mem_cons_self with hbefore | hafter
    · exact splice_of_lt _ _ hbefore
    · exact splice_of_ge _ _ hafter

/-- Of ranges that are pairwise apart, each is read back as it was laid down. -/
theorem slice_spliceAll_of_mem {writes : List (ℕ × List α)} (hapart : writes.Pairwise Apart)
    {write : ℕ × List α} (hwrite : write ∈ writes) :
    slice (spliceAll cell writes) write.1 write.2.length = write.2 := by
  induction writes generalizing cell with
  | nil => simp at hwrite
  | cons first writes ih =>
    rw [pairwise_cons] at hapart
    rw [spliceAll_cons]
    rcases mem_cons.mp hwrite with rfl | hmem
    · -- The later writes are apart from the first one, so its cells survive them.
      have hkeep : slice (spliceAll (splice cell write.1 write.2) writes) write.1
          write.2.length = slice (splice cell write.1 write.2) write.1 write.2.length := by
        refine slice_congr fun address hlower hupper => spliceAll_of_outside _ ?_
        intro other hother
        rcases hapart.1 other hother with hleft | hright
        · exact Or.inl (by omega)
        · exact Or.inr (by omega)
      rw [hkeep, slice_splice_self]
    · exact ih _ hapart.2 hmem

/-- A store of `capacity` cells.  The cell function is total, the operations
below never look at or change a cell outside the capacity. -/
structure Store (α : Type*) where
  capacity : ℕ
  cell : ℕ → α

def Store.read (store : Store α) (offset length : ℕ) : Option (List α) :=
  if offset + length ≤ store.capacity then some (slice store.cell offset length) else none

def Store.write (store : Store α) (offset : ℕ) (values : List α) : Option (Store α) :=
  if offset + values.length ≤ store.capacity then
    some { store with cell := splice store.cell offset values }
  else none

variable {store : Store α}

theorem Store.read_of_le {offset : ℕ} (hbound : offset + length ≤ store.capacity) :
    store.read offset length = some (slice store.cell offset length) := if_pos hbound

theorem Store.write_of_le {offset : ℕ} {values : List α}
    (hbound : offset + values.length ≤ store.capacity) :
    store.write offset values =
      some { store with cell := splice store.cell offset values } := if_pos hbound

theorem Store.capacity_of_write {written : Store α} {offset : ℕ} {values : List α}
    (hwrite : store.write offset values = some written) : written.capacity = store.capacity := by
  rw [Store.write, Option.ite_none_right_eq_some] at hwrite
  cases hwrite.2
  rfl

/-- Take the `length` cells from `base` on into an accumulator, at most `window`
cells at a time.  Every pass takes at least one cell when the window is not empty,
so the length of the range is enough fuel. -/
def Store.foldWindows {γ : Type*} (store : Store α) (window : ℕ) (absorb : γ → List α → γ)
    (base length : ℕ) : ℕ → ℕ → γ → Option γ
  | 0, _, state => some state
  | fuel + 1, position, state =>
    if position < length then
      let chunk := min (length - position) window
      match store.read (base + position) chunk with
      | none => none
      | some values =>
        store.foldWindows window absorb base length fuel (position + chunk) (absorb state values)
    else some state

/-- When the accumulator does not see where a range is cut, reading through a
window is reading the whole range at once. -/
theorem Store.foldWindows_eq {γ : Type*} {window : ℕ} (hwindow : 0 < window)
    {absorb : γ → List α → γ} (hnil : ∀ state, absorb state [] = state)
    (happend : ∀ state first second,
      absorb state (first ++ second) = absorb (absorb state first) second) {base : ℕ}
    (hbound : base + length ≤ store.capacity) (fuel : ℕ) :
    ∀ (position : ℕ) (state : γ), position ≤ length → length ≤ position + fuel →
    store.foldWindows window absorb base length fuel position state =
      some (absorb state (slice store.cell (base + position) (length - position))) := by
  induction fuel with
  | zero =>
    intro position state hposition hfuel
    have hdone : length - position = 0 := by omega
    simp [foldWindows, hdone, hnil]
  | succ fuel ih =>
    intro position state hposition hfuel
    simp only [foldWindows]
    split
    · next hlt =>
      have hchunk : 0 < min (length - position) window ∧
          min (length - position) window ≤ length - position := by omega
      generalize min (length - position) window = chunk at hchunk
      obtain ⟨hpositive, hle⟩ := hchunk
      have hsplit : length - position = chunk + (length - (position + chunk)) := by omega
      rw [Store.read_of_le (by omega)]
      simp only
      rw [ih (position + chunk) _ (by omega) (by omega), hsplit, slice_add, happend, add_assoc]
    · next hge =>
      have hdone : length - position = 0 := by omega
      simp [hdone, hnil]

/-- Where the range at `index` starts when ranges of the given sizes are laid out
one behind the other from `start` on. -/
def rangeStart (start : ℕ) (sizes : List ℕ) (index : ℕ) : ℕ := start + (sizes.take index).sum

theorem rangeStart_append (sizes more : List ℕ) (hindex : index ≤ sizes.length) :
    rangeStart start (sizes ++ more) index = rangeStart start sizes index := by
  rw [rangeStart, take_append_of_le_length hindex, rangeStart]

theorem rangeStart_succ (hsize : sizes[index]? = some size) :
    rangeStart start sizes (index + 1) = rangeStart start sizes index + size := by
  simp [rangeStart, take_add_one, hsize, add_assoc]

theorem rangeStart_mono (sizes : List ℕ) {first second : ℕ} (hle : first ≤ second) :
    rangeStart start sizes first ≤ rangeStart start sizes second := by
  obtain ⟨gap, rfl⟩ := Nat.exists_eq_add_of_le hle
  rw [rangeStart, rangeStart, take_add, sum_append]
  omega

theorem start_le_rangeStart (sizes : List ℕ) (index : ℕ) :
    start ≤ rangeStart start sizes index := Nat.le_add_right _ _

/-- Every range ends before the total size does. -/
theorem rangeStart_add_le (hsize : sizes[index]? = some size) :
    rangeStart start sizes index + size ≤ start + sizes.sum := by
  rw [← rangeStart_succ start hsize]
  have hlt : index < sizes.length := (List.getElem?_eq_some_iff.mp hsize).1
  have hmono := rangeStart_mono start sizes (Nat.succ_le_of_lt hlt)
  simpa [rangeStart] using hmono

/-- Ranges laid out one behind the other do not meet. -/
theorem rangeStart_disjoint {first second : ℕ} (hlt : first < second)
    (hsize : sizes[first]? = some size) :
    rangeStart start sizes first + size ≤ rangeStart start sizes second := by
  rw [← rangeStart_succ start hsize]
  exact rangeStart_mono start sizes hlt

/-- Ranges laid out one behind the other leave no gap. -/
theorem exists_range_of_lt {start : ℕ} (hstart : start ≤ address)
    (haddress : address < rangeStart start sizes index) :
    ∃ other size, other < index ∧ sizes[other]? = some size ∧
      rangeStart start sizes other ≤ address ∧ address < rangeStart start sizes other + size := by
  induction index with
  | zero =>
    rw [rangeStart, take_zero, sum_nil] at haddress
    omega
  | succ index ih =>
    by_cases hbefore : address < rangeStart start sizes index
    · obtain ⟨other, size, hother, hrange⟩ := ih hbefore
      exact ⟨other, size, hother.trans (Nat.lt_succ_self _), hrange⟩
    cases hsize : sizes[index]? with
    | none =>
      have hlength := List.getElem?_eq_none_iff.mp hsize
      rw [rangeStart, take_of_length_le (by omega)] at haddress
      rw [rangeStart, take_of_length_le hlength] at hbefore
      exact absurd haddress hbefore
    | some size =>
      rw [rangeStart_succ start hsize] at haddress
      exact ⟨index, size, Nat.lt_succ_self _, hsize, Nat.not_lt.mp hbefore, haddress⟩

end PdiStack.FlatStore
