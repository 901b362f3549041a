import PdiStack.Scheduler.TaskScheduler

/-!
# The order of a turn

`getSortedTaskList` sorts by exchange, with a comparison whose ties are broken by no order.
An exchange sort brings a list into every preorder that its comparison respects, whatever
the comparison does to equal elements.  Such a preorder is due before not due, and then
less virtual runtime before more.
-/

namespace PdiStack.TaskOrder

open TaskScheduler List

section

variable {ι : Type*}

theorem exchangePass_perm (swap : ι → ι → Bool) (first : ι) (rest : List ι) :
    ((exchangePass swap first rest).1 :: (exchangePass swap first rest).2).Perm
      (first :: rest) := by
  induction rest generalizing first with
  | nil => exact .refl _
  | cons second rest ih =>
    rw [exchangePass]
    split
    · exact (List.Perm.swap ..).trans ((ih second).cons first)
    · exact (List.Perm.swap ..).trans (((ih first).cons second).trans (.swap ..))

theorem exchangeSort_perm (swap : ι → ι → Bool) (places : ℕ) (list : List ι) :
    (exchangeSort swap places list).Perm list := by
  induction places generalizing list with
  | zero => exact .refl _
  | succ places ih =>
    cases list with
    | nil => exact .refl _
    | cons first rest => exact ((ih _).cons _).trans (exchangePass_perm swap first rest)

/-- The comparison exchanges and keeps places as a preorder allows. -/
structure Respects (swap : ι → ι → Bool) (before : ι → ι → Prop) : Prop where
  refl : ∀ first, before first first
  trans : ∀ {first second third}, before first second → before second third → before first third
  pair : ∀ first second, if swap first second then before second first else before first second

variable {swap : ι → ι → Bool} {before : ι → ι → Prop} (hrespects : Respects swap before)
include hrespects

theorem exchangePass_least (first : ι) (rest : List ι) :
    ∀ other ∈ first :: rest, before (exchangePass swap first rest).1 other := by
  induction rest generalizing first with
  | nil =>
    rw [forall_mem_singleton]
    exact hrespects.refl first
  | cons second rest ih =>
    have hpair := hrespects.pair first second
    rw [exchangePass]
    simp only [forall_mem_cons] at ih ⊢
    split at hpair
    case isTrue hswap =>
      obtain ⟨hleast, hrest⟩ := ih second
      rw [if_pos hswap]
      exact ⟨hrespects.trans hleast hpair, hleast, hrest⟩
    case isFalse hswap =>
      obtain ⟨hleast, hrest⟩ := ih first
      rw [if_neg hswap]
      exact ⟨hleast, hrespects.trans hleast hpair, hrest⟩

theorem exchangeSort_pairwise {places : ℕ} {list : List ι} (hplaces : list.length ≤ places) :
    (exchangeSort swap places list).Pairwise before := by
  induction places generalizing list with
  | zero =>
    rw [length_eq_zero_iff.mp (Nat.le_zero.mp hplaces)]
    exact .nil
  | succ places ih =>
    cases list with
    | nil => exact .nil
    | cons first rest =>
      have hperm := exchangePass_perm swap first rest
      have hlength := hperm.length_eq
      simp only [length_cons] at hlength hplaces
      refine .cons (fun other hother => ?_) (ih (by omega))
      have hmem := (exchangeSort_perm swap places _).mem_iff.mp hother
      exact exchangePass_least hrespects first rest other
        (hperm.mem_iff.mp (mem_cons_of_mem _ hmem))

end

/-- The first task is due if the second is, and where they agree in that it has had no more
service for its weight. -/
def Precedes (now : UInt64) (first second : Task) : Prop :=
  (second.nextDue ≤ now → first.nextDue ≤ now) ∧
    ((first.nextDue ≤ now ↔ second.nextDue ≤ now) → first.vruntime ≤ second.vruntime)

theorem respects_precedes (score : Task → UInt64 → ℤ) (now : UInt64) :
    Respects (swapNeeded score now) (Precedes now) where
  refl first := ⟨id, fun _ => UInt64.le_refl _⟩
  trans hfirst hsecond := by
    refine ⟨fun hdue => hfirst.1 (hsecond.1 hdue), fun hsame => ?_⟩
    have hmiddle := Iff.intro (fun hdue => hsecond.1 (hsame.mp hdue)) hfirst.1
    exact UInt64.le_trans (hfirst.2 hmiddle) (hsecond.2 (hmiddle.symm.trans hsame))
  pair first second := by
    by_cases hdue : first.nextDue ≤ now ↔ second.nextDue ≤ now
    · by_cases hequal : first.vruntime = second.vruntime
      · -- The ties: either order will do.
        split
        · exact ⟨hdue.mp, fun _ => UInt64.le_of_eq hequal.symm⟩
        · exact ⟨hdue.mpr, fun _ => UInt64.le_of_eq hequal⟩
      · rw [swapNeeded, if_neg (not_not.mpr (decide_eq_decide.mpr hdue)), if_pos hequal]
        simp only [decide_eq_true_eq]
        split
        case isTrue hless => exact ⟨hdue.mp, fun _ => UInt64.le_of_lt hless⟩
        case isFalse hmore => exact ⟨hdue.mpr, fun _ => UInt64.not_lt.mp hmore⟩
    · rw [swapNeeded, if_pos fun hsame => hdue (decide_eq_decide.mp hsame)]
      simp only [decide_eq_true_eq]
      split
      case isTrue hsecond => exact ⟨fun _ => hsecond, fun hsame => absurd hsame.symm hdue⟩
      case isFalse hsecond =>
        exact ⟨fun hlate => absurd hlate hsecond, fun hsame => absurd hsame hdue⟩

/-- The list holds the live slots, the due ones in front, and among those that are due and
among those that are not the virtual runtime does not decrease. -/
theorem getSortedTaskList_ordered (score : Task → UInt64 → ℤ) (now : UInt64)
    (scheduler : Scheduler) :
    (getSortedTaskList score now scheduler).Perm (liveIndices scheduler) ∧
      (getSortedTaskList score now scheduler).Pairwise fun first second =>
        Precedes now (scheduler.slot first) (scheduler.slot second) := by
  have hrespects := respects_precedes score now
  refine ⟨exchangeSort_perm .., exchangeSort_pairwise ⟨?_, ?_, ?_⟩ le_rfl⟩
  · exact fun first => hrespects.refl _
  · exact hrespects.trans
  · exact fun first second => hrespects.pair _ _

end PdiStack.TaskOrder
