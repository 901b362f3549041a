import Mathlib
import PdiStack.Core.CounterMode

/-!
# The key values a counter mode uses

A cell is a place in a key block: the name of the block and a position.  `take` says
which cells the byte loop of a counter mode uses (`apply_eq_zipWith`).

`Fresh` says that no cell was used twice, that the cells left over are unused, and that
a number of blocks to come are new.  A loop can go on with the cells left over
(`Fresh.take`), beside them (`Fresh.take_apart`), and with other ones (`Fresh.replace`).
-/

namespace PdiStack.StreamCells

open CounterMode List

variable {σ τ β : Type*}

/-- How blocks are numbered, and the counters after each other. -/
structure Numbering (σ τ : Type*) where
  size : ℕ
  size_pos : 0 < size
  next : σ → σ
  name : σ → τ

/-- A counter, and the cells left over in the buffer. -/
structure Source (σ τ : Type*) where
  counter : σ
  spare : List (τ × ℕ)

namespace Numbering

variable (numbering : Numbering σ τ)

def restOf (counter : σ) : List (τ × ℕ) :=
  (range' 1 (numbering.size - 1)).map fun position => (numbering.name counter, position)

/-- The cells that the next key values come from. -/
def take : ℕ → Source σ τ → List (τ × ℕ) × Source σ τ
  | 0, source => ([], source)
  | count + 1, ⟨counter, cell :: spare⟩ =>
    let rest := take count ⟨counter, spare⟩
    (cell :: rest.1, rest.2)
  | count + 1, ⟨counter, []⟩ =>
    let rest := take count ⟨numbering.next counter, numbering.restOf counter⟩
    ((numbering.name counter, 0) :: rest.1, rest.2)

@[simp]
theorem take_zero (source : Source σ τ) : numbering.take 0 source = ([], source) := rfl

theorem take_succ_cons (count : ℕ) (counter : σ) (cell : τ × ℕ) (spare : List (τ × ℕ)) :
    numbering.take (count + 1) ⟨counter, cell :: spare⟩ =
      (cell :: (numbering.take count ⟨counter, spare⟩).1,
        (numbering.take count ⟨counter, spare⟩).2) := rfl

theorem take_succ_nil (count : ℕ) (counter : σ) :
    numbering.take (count + 1) ⟨counter, []⟩ =
      ((numbering.name counter, 0) ::
          (numbering.take count ⟨numbering.next counter, numbering.restOf counter⟩).1,
        (numbering.take count ⟨numbering.next counter, numbering.restOf counter⟩).2) := rfl

@[simp]
theorem length_take (count : ℕ) (source : Source σ τ) :
    (numbering.take count source).1.length = count := by
  induction count generalizing source with
  | zero => rfl
  | succ count ih =>
    obtain ⟨counter, _ | ⟨cell, spare⟩⟩ := source
    · rw [take_succ_nil, length_cons, ih]
    · rw [take_succ_cons, length_cons, ih]

/-- A cell that is taken or left over was left over before, or is of a block of this
numbering. -/
theorem mem_take {count : ℕ} {source : Source σ τ} {cell : τ × ℕ}
    (hcell : cell ∈ (numbering.take count source).1 ++ (numbering.take count source).2.spare) :
    cell ∈ source.spare ∨ ∃ counter, cell.1 = numbering.name counter := by
  induction count generalizing source with
  | zero => exact .inl hcell
  | succ count ih =>
    obtain ⟨counter, _ | ⟨first, spare⟩⟩ := source
    · rw [take_succ_nil, cons_append, mem_cons] at hcell
      rcases hcell with rfl | hcell
      · exact .inr ⟨counter, rfl⟩
      · rcases ih hcell with hrest | hblock
        · obtain ⟨position, -, rfl⟩ := mem_map.mp hrest
          exact .inr ⟨counter, rfl⟩
        · exact .inr hblock
    · rw [take_succ_cons, cons_append, mem_cons] at hcell
      rcases hcell with rfl | hcell
      · exact .inl mem_cons_self
      · exact (ih hcell).imp_left (mem_cons_of_mem first)

end Numbering

section Meaning

variable [Inhabited β] (generator : Generator σ β) (numbering : Numbering σ τ)
  (value : τ → List β)

def valueAt (cell : τ × ℕ) : β := (value cell.1).getD cell.2 default

/-- A cursor whose buffer holds the cells left over. -/
structure Matches (cursor : Cursor σ β) (source : Source σ τ) : Prop where
  counter_eq : cursor.counter = source.counter
  position_le : cursor.position ≤ numbering.size
  buffer_eq : (range' cursor.position (numbering.size - cursor.position)).map
      (fun position => cursor.buffer.getD position default) = source.spare.map (valueAt value)

variable {generator numbering value}

theorem Matches.length_eq {cursor : Cursor σ β} {source : Source σ τ}
    (hmatches : Matches numbering value cursor source) :
    source.spare.length = numbering.size - cursor.position := by
  have hlength := congrArg length hmatches.buffer_eq
  rw [length_map, length_range', length_map] at hlength
  exact hlength.symm

theorem matches_restart (hsize : generator.size = numbering.size) (counter : σ) :
    Matches numbering value (generator.restart counter) ⟨counter, []⟩ where
  counter_eq := rfl
  position_le := le_of_eq hsize
  buffer_eq := by
    change (range' generator.size (numbering.size - generator.size)).map _ = []
    rw [hsize, Nat.sub_self]
    rfl

/-- Going on without mixing anything in. -/
theorem Matches.skip {cursor : Cursor σ β} {source : Source σ τ}
    (hmatches : Matches numbering value cursor source) (count : ℕ) :
    Matches numbering value
      { cursor with position := min (cursor.position + count) numbering.size }
      ⟨source.counter, source.spare.drop count⟩ where
  counter_eq := hmatches.counter_eq
  position_le := min_le_right _ _
  buffer_eq := by
    rw [map_drop, ← hmatches.buffer_eq, ← map_drop, drop_range', mul_one]
    rcases le_total (cursor.position + count) numbering.size with hinside | houtside
    · rw [min_eq_left hinside, Nat.sub_sub]
    · rw [Nat.min_eq_right houtside, Nat.sub_self, Nat.sub_sub, Nat.sub_eq_zero_of_le houtside]
      rfl

/-- The loop mixes the values of the cells in, one after the other. -/
theorem apply_eq_zipWith (hsize : generator.size = numbering.size)
    (hnext : generator.next = numbering.next)
    (hvalue : ∀ counter, value (numbering.name counter) = generator.block counter)
    (text : List β) {cursor : Cursor σ β} {source : Source σ τ}
    (hmatches : Matches numbering value cursor source) :
    (generator.apply text cursor).1 =
        zipWith generator.mix text
          ((numbering.take text.length source).1.map (valueAt value)) ∧
      Matches numbering value (generator.apply text cursor).2
        (numbering.take text.length source).2 := by
  induction text generalizing cursor source with
  | nil => exact ⟨rfl, hmatches⟩
  | cons byte text ih =>
    have hlength := hmatches.length_eq
    have hcounter := hmatches.counter_eq
    have hbuffer := hmatches.buffer_eq
    have hposition := hmatches.position_le
    rw [Generator.apply_cons, length_cons]
    obtain ⟨counter, _ | ⟨cell, spare⟩⟩ := source
    · -- The buffer is used up, and a block is generated.
      have hused : cursor.position = generator.size := by
        rw [length_nil] at hlength
        omega
      have hfresh : Matches numbering value (generator.draw cursor).2
          ⟨numbering.next counter, numbering.restOf counter⟩ := by
        rw [Generator.draw, if_pos hused]
        refine ⟨by rw [hnext, hcounter], numbering.size_pos, ?_⟩
        rw [Numbering.restOf, map_map, hcounter]
        apply map_congr_left
        intro position _
        simp [Function.comp_apply, valueAt, hvalue]
      obtain ⟨houtput, hafter⟩ := ih hfresh
      rw [Numbering.take_succ_nil]
      refine ⟨?_, hafter⟩
      rw [houtput, map_cons, zipWith_cons_cons, Generator.draw, if_pos hused, valueAt,
        hvalue, hcounter]
    · -- The next value is in the buffer.
      rw [length_cons] at hlength
      have hunused : cursor.position ≠ generator.size := by omega
      have hleft : numbering.size - cursor.position =
          numbering.size - (cursor.position + 1) + 1 := by omega
      rw [hleft, range'_succ, map_cons, map_cons, cons.injEq] at hbuffer
      have hrest : Matches numbering value (generator.draw cursor).2 ⟨counter, spare⟩ := by
        rw [Generator.draw, if_neg hunused]
        exact ⟨hcounter, by dsimp only; omega, hbuffer.2⟩
      obtain ⟨houtput, hafter⟩ := ih hrest
      rw [Numbering.take_succ_cons]
      refine ⟨?_, hafter⟩
      rw [houtput, map_cons, zipWith_cons_cons, Generator.draw, if_neg hunused, hbuffer.1]

end Meaning

section Fresh

variable (numbering : Numbering σ τ)

/-- No cell was used twice, those left over were not used, and the blocks of the next
counters are new. -/
structure Fresh (ahead : ℕ) (used : List (τ × ℕ)) (source : Source σ τ) : Prop where
  nodup : (used ++ source.spare).Nodup
  behind : ∀ cell ∈ used ++ source.spare, ∀ count < ahead,
    cell.1 ≠ numbering.name (numbering.next^[count] source.counter)
  distinct : ∀ first < ahead, ∀ second < ahead,
    numbering.name (numbering.next^[first] source.counter) =
      numbering.name (numbering.next^[second] source.counter) → first = second

variable {numbering} {ahead : ℕ} {used : List (τ × ℕ)} {source : Source σ τ}

section

variable (hfresh : Fresh numbering ahead used source)
include hfresh

theorem Fresh.nodup_used : used.Nodup := hfresh.nodup.of_append_left

theorem Fresh.mono {fewer : ℕ} (hfewer : fewer ≤ ahead) : Fresh numbering fewer used source :=
  ⟨hfresh.nodup, fun cell hcell count hcount =>
      hfresh.behind cell hcell count (lt_of_lt_of_le hcount hfewer),
    fun first hfirst second hsecond => hfresh.distinct first (lt_of_lt_of_le hfirst hfewer)
      second (lt_of_lt_of_le hsecond hfewer)⟩

/-- Which cells are used and which are left over matters only as a whole. -/
theorem Fresh.of_subperm {used' spare' : List (τ × ℕ)}
    (hsub : (used' ++ spare').Subperm (used ++ source.spare)) :
    Fresh numbering ahead used' ⟨source.counter, spare'⟩ := by
  obtain ⟨cells, hperm, hcells⟩ := hsub
  exact ⟨hperm.nodup_iff.mp (hfresh.nodup.sublist hcells),
    fun cell hcell => hfresh.behind cell (hcells.subset (hperm.mem_iff.mpr hcell)),
    hfresh.distinct⟩

theorem Fresh.drop (count : ℕ) :
    Fresh numbering ahead used ⟨source.counter, source.spare.drop count⟩ :=
  hfresh.of_subperm ((List.Sublist.refl used).append (drop_sublist _ _)).subperm

theorem Fresh.drop_all : Fresh numbering ahead used ⟨source.counter, []⟩ := by
  have hdropped := hfresh.drop source.spare.length
  rwa [drop_length] at hdropped

/-- The cells left over may be replaced by new ones. -/
theorem Fresh.replace {spare : List (τ × ℕ)} (hspare : spare.Nodup)
    (hunused : ∀ cell ∈ spare, cell ∉ used) (hbehind : ∀ cell ∈ spare, ∀ count < ahead,
      cell.1 ≠ numbering.name (numbering.next^[count] source.counter)) :
    Fresh numbering ahead used ⟨source.counter, spare⟩ := by
  refine ⟨nodup_append'.mpr ⟨hfresh.nodup_used, hspare, ?_⟩, fun cell hcell => ?_,
    hfresh.distinct⟩
  · exact fun cell hused hcell => hunused cell hcell hused
  · rcases mem_append.mp hcell with hused | hcell
    · exact hfresh.behind cell (mem_append_left _ hused)
    · exact hbehind cell hcell

end

/-- A block is generated: its cells are new, and one block fewer is ahead. -/
theorem Fresh.generate {counter : σ} (hfresh : Fresh numbering (ahead + 1) used ⟨counter, []⟩) :
    Fresh numbering ahead (used ++ [(numbering.name counter, 0)])
      ⟨numbering.next counter, numbering.restOf counter⟩ := by
  have hblock : [(numbering.name counter, 0)] ++ numbering.restOf counter =
      (range' 0 numbering.size).map fun position => (numbering.name counter, position) := by
    obtain ⟨size, hsize⟩ := Nat.exists_eq_succ_of_ne_zero (Nat.ne_of_gt numbering.size_pos)
    rw [Numbering.restOf, hsize]
    rfl
  have hname : ∀ cell ∈ [(numbering.name counter, 0)] ++ numbering.restOf counter,
      cell.1 = numbering.name counter := by
    intro cell hcell
    rw [hblock, mem_map] at hcell
    obtain ⟨position, -, rfl⟩ := hcell
    rfl
  have hold := hfresh.behind
  rw [append_nil] at hold
  refine ⟨?_, ?_, ?_⟩
  · rw [append_assoc]
    refine nodup_append'.mpr ⟨hfresh.nodup_used, ?_, ?_⟩
    · rw [hblock]
      exact (nodup_range').map fun _ _ heq => (Prod.mk.inj heq).2
    · intro cell hused hcell
      exact hold cell hused 0 (Nat.succ_pos _) (hname cell hcell)
  · intro cell hcell count hcount
    rw [append_assoc] at hcell
    rcases mem_append.mp hcell with hused | hcell
    · exact hold cell hused (count + 1) (Nat.succ_lt_succ hcount)
    · rw [hname cell hcell]
      intro hsame
      exact absurd (hfresh.distinct 0 (Nat.succ_pos _) (count + 1) (Nat.succ_lt_succ hcount) hsame)
        (Nat.succ_ne_zero count).symm
  · intro first hfirst second hsecond hsame
    exact Nat.succ.inj (hfresh.distinct (first + 1) (Nat.succ_lt_succ hfirst) (second + 1)
      (Nat.succ_lt_succ hsecond) hsame)

/-- Going on with the cells left over. -/
theorem Fresh.take (hfresh : Fresh numbering ahead used source) {count : ℕ}
    (hcount : count ≤ ahead) :
    Fresh numbering (ahead - count) (used ++ (numbering.take count source).1)
      (numbering.take count source).2 := by
  induction count generalizing ahead used source with
  | zero =>
    rw [Numbering.take_zero, append_nil]
    exact hfresh
  | succ count ih =>
    obtain ⟨fewer, rfl⟩ := Nat.exists_eq_add_of_lt (lt_of_lt_of_le (Nat.succ_pos count) hcount)
    rw [zero_add] at hfresh hcount ⊢
    obtain ⟨counter, _ | ⟨cell, spare⟩⟩ := source
    · have hrest := ih hfresh.generate (Nat.le_of_succ_le_succ hcount)
      rw [append_assoc] at hrest
      rw [Nat.succ_sub_succ]
      exact hrest
    · have hmoved : Fresh numbering fewer (used ++ [cell]) ⟨counter, spare⟩ := by
        apply (hfresh.mono (Nat.le_succ fewer)).of_subperm
        rw [append_assoc]
        exact .refl _
      have hrest := ih hmoved (Nat.le_of_succ_le_succ hcount)
      rw [append_assoc] at hrest
      rw [Nat.succ_sub_succ]
      exact hrest

/-- Going on beside them, with a block of its own. -/
theorem Fresh.take_apart (hfresh : Fresh numbering ahead used source) {count : ℕ}
    (hcount : count ≤ ahead) :
    Fresh numbering (ahead - count)
      (used ++ (numbering.take count ⟨source.counter, []⟩).1)
      ⟨(numbering.take count ⟨source.counter, []⟩).2.counter, source.spare⟩ := by
  have haside : Fresh numbering ahead (used ++ source.spare) ⟨source.counter, []⟩ := by
    apply hfresh.of_subperm
    rw [append_nil]
  apply (haside.take hcount).of_subperm
  rw [append_assoc, append_assoc, append_assoc]
  refine (List.Perm.append_left used ?_).subperm.trans
    (List.Sublist.append_left (List.Sublist.append_left (sublist_append_left _ _) _) _).subperm
  exact perm_append_comm

end Fresh

end PdiStack.StreamCells
