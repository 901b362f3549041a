import Mathlib

/-!
# Windows of a circular memory

A circular memory of `size` cells is read from some start on, past its end and
round to its beginning.  The window of a given length is what is read.  A cell just
behind the window can be written without changing it, as long as the window does
not fill the memory.
-/

namespace PdiStack.Circular

open Function List
variable {α : Type*} {size : ℕ}

def window (cells : ℕ → α) (size start count : ℕ) : List α :=
  (List.range count).map fun index => cells ((start + index) % size)

variable (cells : ℕ → α) (start count : ℕ)

@[simp] theorem length_window : (window cells size start count).length = count := by
  rw [window, length_map, length_range]

theorem window_succ :
    window cells size start (count + 1) =
      window cells size start count ++ [cells ((start + count) % size)] := by
  rw [window, range_succ, map_append]
  rfl

theorem window_cons :
    window cells size start (count + 1) =
      cells (start % size) :: window cells size ((start + 1) % size) count := by
  rw [window, range_succ_eq_map, map_cons, map_map]
  congr 1
  apply map_congr_left
  intro index _
  change cells ((start + (index + 1)) % size) = cells (((start + 1) % size + index) % size)
  rw [Nat.mod_add_mod, add_assoc, add_comm 1 index]

/-- The cell behind a window that leaves room is not one of its cells. -/
theorem window_update {count : ℕ} (hroom : count < size) (cells : ℕ → α) (start : ℕ) (value : α) :
    window (update cells ((start + count) % size) value) size start count =
      window cells size start count := by
  apply map_congr_left
  intro index hindex
  apply update_of_ne
  intro hsame
  have hless := mem_range.mp hindex
  have hmod : (start + index) ≡ (start + count) [MOD size] := hsame
  have hcancel : index ≡ count [MOD size] := Nat.ModEq.add_left_cancel' start hmod
  rw [Nat.ModEq, Nat.mod_eq_of_lt (hless.trans hroom), Nat.mod_eq_of_lt hroom] at hcancel
  omega

/-- Writing behind the window makes it one cell longer. -/
theorem window_update_succ {count : ℕ} (hroom : count < size) (cells : ℕ → α) (start : ℕ)
    (value : α) :
    window (update cells ((start + count) % size) value) size start (count + 1) =
      window cells size start count ++ [value] := by
  rw [window_succ, window_update hroom, update_self]

end PdiStack.Circular
