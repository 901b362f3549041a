import Mathlib

/-!
# Bounded scans

A reader passes over a list, keeping a state, and looks for the first letter that it takes
as a hit in the state it has there.  It gives up at a letter that stops it and after a
bounded number of letters.  `scan_eq_some_iff` says what a found place is: the reader came
to it without being stopped, and every letter before it was a miss.
-/

namespace PdiStack.Scan

open List Option
variable {σ α : Type*}

section

variable (next : σ → α → σ) (stop : α → Bool) (hit : σ → α → Bool)

def scan : ℕ → σ → List α → Option ℕ
  | 0, _, _ => none
  | _ + 1, _, [] => none
  | limit + 1, state, letter :: rest =>
    if stop letter then none
    else if hit state letter then some 0
    else (scan limit (next state letter) rest).map (· + 1)

def Missed : σ → List α → Prop
  | _, [] => True
  | state, letter :: rest => hit state letter = false ∧ Missed (next state letter) rest

instance decidableMissed : (state : σ) → (list : List α) → Decidable (Missed next hit state list)
  | _, [] => .isTrue trivial
  | state, letter :: rest =>
    have := decidableMissed (next state letter) rest
    inferInstanceAs (Decidable (hit state letter = false ∧ Missed next hit _ rest))

end

variable {next : σ → α → σ} {stop : α → Bool} {hit : σ → α → Bool}

@[simp]
theorem missed_nil (state : σ) : Missed next hit state [] := trivial

@[simp]
theorem missed_cons (state : σ) (letter : α) (rest : List α) :
    Missed next hit state (letter :: rest) ↔
      hit state letter = false ∧ Missed next hit (next state letter) rest := Iff.rfl

variable {state : σ} {limit place : ℕ}

theorem scan_eq_some_iff {list : List α} :
    scan next stop hit limit state list = some place ↔
      ∃ before letter after, list = before ++ letter :: after ∧ before.length = place ∧
        place < limit ∧ (∀ read ∈ before, stop read = false) ∧ stop letter = false ∧
        Missed next hit state before ∧ hit (before.foldl next state) letter = true := by
  induction list generalizing limit place state with
  | nil => cases limit <;> simp [scan]
  | cons head rest ih =>
    cases limit with
    | zero => simp [scan]
    | succ limit =>
      rw [scan]
      constructor
      · intro hscan
        split at hscan
        · cases hscan
        rename_i hstop
        split at hscan
        · rename_i hhit
          obtain rfl := some.inj hscan
          exact ⟨[], head, rest, rfl, rfl, Nat.succ_pos limit, nofun, by simpa using hstop,
            trivial, hhit⟩
        · rename_i hmiss
          obtain ⟨inner, hinner, rfl⟩ := map_eq_some_iff.mp hscan
          obtain ⟨before, letter, after, rfl, rfl, hlimit, hread, hletter, hmissed, hhit⟩ :=
            ih.mp hinner
          refine ⟨head :: before, letter, after, rfl, rfl, Nat.succ_lt_succ hlimit, ?_, hletter,
            ⟨by simpa using hmiss, hmissed⟩, hhit⟩
          simpa using ⟨by simpa using hstop, hread⟩
      · rintro ⟨before, letter, after, hlist, rfl, hlimit, hread, hletter, hmissed, hhit⟩
        cases before with
        | nil =>
          obtain ⟨rfl, rfl⟩ := hlist
          rw [foldl_nil] at hhit
          rw [if_neg (by simp [hletter]), if_pos hhit]
          rfl
        | cons first before =>
          obtain ⟨rfl, rfl⟩ := hlist
          rw [if_neg (by simp [hread head mem_cons_self]), if_neg (by simp [hmissed.1])]
          rw [map_eq_some_iff]
          refine ⟨before.length, ih.mpr ⟨before, letter, after, rfl, rfl, ?_, ?_, hletter,
            hmissed.2, hhit⟩, rfl⟩
          · exact Nat.lt_of_succ_lt_succ hlimit
          · exact fun read hmem => hread read (mem_cons_of_mem head hmem)

/-- A place found in the front of a list is found in the list. -/
theorem scan_append_of_some {front : List α} {back : List α}
    (hfound : scan next stop hit limit state front = some place) :
    scan next stop hit limit state (front ++ back) = some place := by
  obtain ⟨before, letter, after, rfl, hrest⟩ := scan_eq_some_iff.mp hfound
  rw [append_assoc]
  exact scan_eq_some_iff.mpr ⟨before, letter, after ++ back, rfl, hrest⟩

/-- A place found in a list and not in its front is past the front. -/
theorem length_le_of_scan_append {front back : List α}
    (hnone : scan next stop hit limit state front = none)
    (hfound : scan next stop hit limit state (front ++ back) = some place) :
    front.length ≤ place := by
  obtain ⟨before, letter, after, hlist, rfl, hrest⟩ := scan_eq_some_iff.mp hfound
  by_contra hshort
  obtain ⟨extra, rfl⟩ : before ++ [letter] <+: front := by
    refine prefix_of_prefix_length_le ⟨after, ?_⟩ (prefix_append front back) ?_
    · rw [append_assoc, singleton_append, hlist]
    · rw [length_append, length_singleton]
      omega
  have hfront := scan_eq_some_iff.mpr
    ⟨before, letter, extra, rfl, rfl, hrest⟩
  rw [append_cons] at hfront
  cases hnone.symm.trans hfront

theorem scan_lt_length {list : List α} (hfound : scan next stop hit limit state list = some place) :
    place < list.length := by
  obtain ⟨before, letter, after, rfl, rfl, -⟩ := scan_eq_some_iff.mp hfound
  simp

/-- A reader that may look only at the front of a list finds there what it finds in the
front alone. -/
theorem min_scan_append (limit : ℕ) (state : σ) (front back : List α) {bound : ℕ}
    (hbound : front.length ≤ bound) :
    min front.length ((scan next stop hit limit state (front ++ back)).getD bound) =
      (scan next stop hit limit state front).getD front.length := by
  cases hfront : scan next stop hit limit state front with
  | some place =>
    rw [scan_append_of_some hfront]
    exact min_eq_right (le_of_lt (scan_lt_length hfront))
  | none =>
    refine min_eq_left ?_
    cases hlist : scan next stop hit limit state (front ++ back) with
    | some place => exact length_le_of_scan_append hfront hlist
    | none => exact hbound

end PdiStack.Scan
