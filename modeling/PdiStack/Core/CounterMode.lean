import Mathlib

/-!
# Counter-mode streams

A counter mode turns a block function into a stream: a counter is mapped to a block of
key values, the counter advances, and the values are mixed into the text one at a time.
The cursor keeps the counter, the block in use and the position in it.

A text may be cut anywhere as long as the cursor is kept (`apply_append`), and at block
boundaries when the buffer is dropped between calls (`apply_restart_append`).
-/

namespace PdiStack.CounterMode

variable {σ β : Type*} [Inhabited β]

/-- What a counter mode is built from: blocks of `size` key values, one for each
counter, and the operation that mixes a key value into a text value. -/
structure Generator (σ β : Type*) where
  size : ℕ
  block : σ → List β
  next : σ → σ
  mix : β → β → β

/-- The state of the byte loop.  The block in `buffer` is used up when `position`
has reached the block size. -/
structure Cursor (σ β : Type*) where
  counter : σ
  buffer : List β
  position : ℕ

namespace Generator

variable (generator : Generator σ β)

/-- Take the next key value, generating a block first when the last one is used
up. -/
def draw (cursor : Cursor σ β) : β × Cursor σ β :=
  if cursor.position = generator.size then
    ((generator.block cursor.counter).getD 0 default,
      ⟨generator.next cursor.counter, generator.block cursor.counter, 1⟩)
  else
    (cursor.buffer.getD cursor.position default,
      { cursor with position := cursor.position + 1 })

/-- Mix the stream into a text. -/
def apply : List β → Cursor σ β → List β × Cursor σ β
  | [], cursor => ([], cursor)
  | value :: text, cursor =>
    let (key, cursor) := generator.draw cursor
    let (output, cursor) := apply text cursor
    (generator.mix value key :: output, cursor)

/-- The cursor of a call that starts with no block in its buffer. -/
def restart (counter : σ) : Cursor σ β := ⟨counter, [], generator.size⟩

@[simp]
theorem apply_nil (cursor : Cursor σ β) : generator.apply [] cursor = ([], cursor) := rfl

theorem apply_cons (value : β) (text : List β) (cursor : Cursor σ β) :
    generator.apply (value :: text) cursor =
      (generator.mix value (generator.draw cursor).1 ::
          (generator.apply text (generator.draw cursor).2).1,
        (generator.apply text (generator.draw cursor).2).2) := rfl

@[simp]
theorem length_apply (text : List β) (cursor : Cursor σ β) :
    (generator.apply text cursor).1.length = text.length := by
  induction text generalizing cursor with
  | nil => rfl
  | cons value text ih => simp [apply_cons, ih]

/-- A text may be cut anywhere when the cursor is carried over the cut. -/
theorem apply_append (first second : List β) (cursor : Cursor σ β) :
    generator.apply (first ++ second) cursor =
      ((generator.apply first cursor).1 ++
          (generator.apply second (generator.apply first cursor).2).1,
        (generator.apply second (generator.apply first cursor).2).2) := by
  induction first generalizing cursor with
  | nil => rfl
  | cons value first ih => simp [apply_cons, ih]

/-- The cursor reached does not depend on the text, only on its length. -/
theorem apply_cursor_congr {left right : List β} (hlength : left.length = right.length)
    (cursor : Cursor σ β) :
    (generator.apply left cursor).2 = (generator.apply right cursor).2 := by
  induction left generalizing right cursor with
  | nil => rw [List.length_eq_zero_iff.mp hlength.symm]
  | cons value left ih =>
    cases right with
    | nil => simp at hlength
    | cons other right =>
      exact ih (by simpa using hlength) _

/-- Mixing the stream in a second time recovers the text. -/
theorem apply_apply (hmix : ∀ value key, generator.mix (generator.mix value key) key = value)
    (text : List β) (cursor : Cursor σ β) :
    (generator.apply (generator.apply text cursor).1 cursor).1 = text := by
  induction text generalizing cursor with
  | nil => rfl
  | cons value text ih => simp [apply_cons, hmix, ih]

/-- The beginning of the output only depends on the beginning of the text. -/
theorem take_apply (text : List β) (cursor : Cursor σ β) (count : ℕ) :
    (generator.apply text cursor).1.take count = (generator.apply (text.take count) cursor).1 := by
  induction text generalizing cursor count with
  | nil => simp
  | cons value text ih =>
    cases count with
    | zero => simp
    | succ count => simp [apply_cons, ih]

/-- Once the buffered block is used up its contents no longer matter. -/
theorem apply_eq_restart {cursor : Cursor σ β} (hused : cursor.position = generator.size)
    (text : List β) :
    (generator.apply text cursor).1 = (generator.apply text (generator.restart cursor.counter)).1 ∧
      (generator.apply text cursor).2.counter =
        (generator.apply text (generator.restart cursor.counter)).2.counter := by
  have hdraw : generator.draw cursor = generator.draw (generator.restart cursor.counter) := by
    simp [draw, restart, hused]
  cases text with
  | nil => exact ⟨rfl, rfl⟩
  | cons value text => simp [apply_cons, hdraw]

/-- The position stays inside the block and advances with the text modulo the
block size. -/
theorem position_apply (hsize : 0 < generator.size) (text : List β) {cursor : Cursor σ β}
    (hlower : 1 ≤ cursor.position) (hupper : cursor.position ≤ generator.size) :
    1 ≤ (generator.apply text cursor).2.position ∧
      (generator.apply text cursor).2.position ≤ generator.size ∧
      (generator.apply text cursor).2.position % generator.size =
        (cursor.position + text.length) % generator.size := by
  induction text generalizing cursor with
  | nil => exact ⟨hlower, hupper, rfl⟩
  | cons value text ih =>
    by_cases hused : cursor.position = generator.size
    · have hposition : (generator.draw cursor).2.position = 1 := by simp [draw, hused]
      obtain ⟨hone, hle, hmod⟩ := ih (le_of_eq hposition.symm) (hposition ▸ hsize)
      refine ⟨hone, hle, ?_⟩
      rw [apply_cons, hmod, hposition, hused, List.length_cons, Nat.add_mod_left, add_comm]
    · have hposition : (generator.draw cursor).2.position = cursor.position + 1 := by
        simp [draw, hused]
      have hlower' : 1 ≤ (generator.draw cursor).2.position := by omega
      obtain ⟨hone, hle, hmod⟩ := ih hlower' (by omega)
      refine ⟨hone, hle, ?_⟩
      rw [apply_cons, hmod, hposition, List.length_cons, add_assoc, add_comm 1]

/-- A text may be cut at a block boundary even when the buffer is dropped there:
only the counter has to be carried over. -/
theorem apply_restart_append (hsize : 0 < generator.size) {first : List β}
    (hblocks : generator.size ∣ first.length) (second : List β) (counter : σ) :
    (generator.apply (first ++ second) (generator.restart counter)).1 =
        (generator.apply first (generator.restart counter)).1 ++
          (generator.apply second
            (generator.restart (generator.apply first (generator.restart counter)).2.counter)).1 ∧
      (generator.apply (first ++ second) (generator.restart counter)).2.counter =
        (generator.apply second
          (generator.restart
            (generator.apply first (generator.restart counter)).2.counter)).2.counter := by
  have hstart : (generator.restart counter : Cursor σ β).position = generator.size := rfl
  have hfirst : 1 ≤ (generator.restart counter : Cursor σ β).position := by omega
  obtain ⟨hlower, hupper, hmod⟩ := generator.position_apply hsize first hfirst (le_of_eq hstart)
  have hused : (generator.apply first (generator.restart counter)).2.position = generator.size := by
    rw [hstart, Nat.add_mod_left, Nat.mod_eq_zero_of_dvd hblocks] at hmod
    exact le_antisymm hupper (Nat.le_of_dvd hlower (Nat.dvd_of_mod_eq_zero hmod))
  obtain ⟨houtput, hcounter⟩ := generator.apply_eq_restart hused second
  rw [apply_append]
  exact ⟨by rw [houtput], hcounter⟩

end Generator

end PdiStack.CounterMode
