import Mathlib

/-!
# Readers that keep track of what they read

A reader walks over a list from an offset.  It may ask whether some more elements are
there, and it may take them without asking; taking elements that are not there is a
fault.  The cursor carries, next to the offset, how far into the list the reader has read,
so that a bound on what it reads is a bound on one number.
-/

namespace PdiStack.ByteReader

variable {β α γ : Type}

/-- The next element, and the end of the last one that was read. -/
structure Cursor where
  offset : ℕ
  reach : ℕ
deriving DecidableEq, Repr

def Cursor.past (cursor : Cursor) (count : ℕ) : Cursor :=
  ⟨cursor.offset + count, max cursor.reach (cursor.offset + count)⟩

/-- A reader of elements of `β`.  Without a value, it has read outside of the list. -/
def Reader (β α : Type) := List β → Cursor → Option (α × Cursor)

namespace Reader

def run (reader : Reader β α) (data : List β) (cursor : Cursor) : Option (α × Cursor) :=
  reader data cursor

instance : Monad (Reader β) where
  pure value := fun _ cursor => some (value, cursor)
  bind reader next := fun data cursor =>
    (reader.run data cursor).bind fun read => (next read.1).run data read.2

def fits (count : ℕ) : Reader β Bool :=
  fun data cursor => some (cursor.offset + count ≤ data.length, cursor)

def next (count : ℕ) : Reader β (List β) :=
  fun data cursor =>
    if cursor.offset + count ≤ data.length then
      some ((data.drop cursor.offset).take count, cursor.past count)
    else
      none

variable {data : List β} {cursor : Cursor}

@[simp]
theorem run_pure (value : α) : (pure value : Reader β α).run data cursor = some (value, cursor) :=
  rfl

@[simp]
theorem run_bind (reader : Reader β α) (rest : α → Reader β γ) :
    (reader >>= rest).run data cursor =
      (reader.run data cursor).bind fun read => (rest read.1).run data read.2 := rfl

@[simp]
theorem run_fits (count : ℕ) :
    (fits count : Reader β Bool).run data cursor =
      some (decide (cursor.offset + count ≤ data.length), cursor) := rfl

theorem run_next_of_le {count : ℕ} (hfits : cursor.offset + count ≤ data.length) :
    (next count : Reader β (List β)).run data cursor =
      some ((data.drop cursor.offset).take count, cursor.past count) := if_pos hfits

theorem run_next_of_lt {count : ℕ} (hshort : data.length < cursor.offset + count) :
    (next count : Reader β (List β)).run data cursor = none := if_neg (Nat.not_le.mpr hshort)

/-- The reader comes to an end and has read nothing behind `limit`. -/
def Within (limit : ℕ) (reader : Reader β α) (data : List β) (cursor : Cursor) : Prop :=
  ∃ value after, reader.run data cursor = some (value, after) ∧ after.reach ≤ limit

theorem within_of_run {limit : ℕ} {reader : Reader β α} {value : α} {after : Cursor}
    (hrun : reader.run data cursor = some (value, after)) :
    Within limit reader data cursor ↔ after.reach ≤ limit := by
  constructor
  · rintro ⟨_, _, hsame, hreach⟩
    cases hrun.symm.trans hsame
    exact hreach
  · exact fun hreach => ⟨value, after, hrun, hreach⟩

/-- Whatever it reads, the reader returns a value of this kind. -/
def Yields (wanted : α → Prop) (reader : Reader β α) : Prop :=
  ∀ data cursor value after, reader.run data cursor = some (value, after) → wanted value

theorem yields_pure {wanted : α → Prop} {value : α} (hvalue : wanted value) :
    Yields wanted (pure value : Reader β α) := by
  intro data cursor _ _ hrun
  cases hrun
  exact hvalue

theorem yields_bind {wanted : γ → Prop} (reader : Reader β α) {rest : α → Reader β γ}
    (hrest : ∀ value, Yields wanted (rest value)) : Yields wanted (reader >>= rest) := by
  intro data cursor value after hrun
  obtain ⟨⟨read, next⟩, -, hnext⟩ := Option.bind_eq_some_iff.mp hrun
  exact hrest read data next value after hnext

end Reader

end PdiStack.ByteReader
