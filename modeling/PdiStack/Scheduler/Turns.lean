import PdiStack.Scheduler.TaskScheduler

/-!
# What a turn keeps

A turn of the scheduler is made of a few kinds of change to one slot, of the calls of
callbacks and of those of finalizers.  An invariant of the scheduler that each of
these keeps is kept by the whole turn, and a fact that each gives of the event it
shows holds of every event of the turn.
-/

namespace PdiStack.Turns

open TaskScheduler List

theorem slot_modifySlot (scheduler : Scheduler) (index place : ℕ) (change : Task → Task) :
    (scheduler.modifySlot index change).slot place =
      if place = index ∧ place < scheduler.tasks.length then change (scheduler.slot place)
      else scheduler.slot place := by
  simp only [Scheduler.slot, Scheduler.modifySlot, getD_eq_getElem?_getD]
  by_cases hplace : place = index
  · subst hplace
    rw [getElem?_modify_eq]
    by_cases hinside : place < scheduler.tasks.length
    · rw [if_pos ⟨rfl, hinside⟩, getElem?_eq_getElem hinside]
      rfl
    · rw [if_neg (fun h => hinside h.2), getElem?_eq_none (Nat.le_of_not_lt hinside)]
      rfl
  · rw [if_neg (fun h => hplace h.1), getElem?_modify_ne _ _ (Ne.symm hplace)]

/-- What holds of every slot holds of every slot with one changed, if the change keeps
it. -/
theorem forall_slot_modifySlot {holds : Task → Prop} {scheduler : Scheduler}
    (hslots : ∀ place, holds (scheduler.slot place)) {index : ℕ} {change : Task → Task}
    (hchange : holds (scheduler.slot index) → holds (change (scheduler.slot index))) (place : ℕ) :
    holds ((scheduler.modifySlot index change).slot place) := by
  rw [slot_modifySlot]
  split
  case isTrue hplace =>
    rw [hplace.1]
    exact hchange (hslots index)
  case isFalse => exact hslots place

/-- What each part of a turn has to keep, and to give of the event it shows. -/
structure Keeps (turn : Turn) (invariant : Scheduler → Prop) (wanted : Event → Prop) : Prop where
  outside : ∀ scheduler rebase vruntime, invariant scheduler →
    invariant { scheduler with rebaseStartPriotask := rebase, minVruntime := vruntime }
  consume : ∀ scheduler index, (scheduler.slot index).taskMode = .inline → invariant scheduler →
    invariant (scheduler.modifySlot index Task.consumeSignal)
  pass : ∀ scheduler index, (scheduler.slot index).taskMode ≠ .inline → invariant scheduler →
    invariant (scheduler.modifySlot index Task.passSignal)
  clamp : ∀ scheduler index start, invariant scheduler →
    invariant (scheduler.modifySlot index (Task.clampLast start))
  invoke : ∀ scheduler index routine, invariant scheduler →
    (scheduler.slot index).task = some routine → (scheduler.slot index).maxAttempts ≠ 0 →
    (scheduler.slot index).pendingSig = .none →
    wanted (.invoked (scheduler.slot index).taskId routine) ∧
      invariant (scheduler.modifySlot index fun task => { task with state := .running })
  calls : ∀ scheduler routine, invariant scheduler →
    invariant (performAll scheduler (turn.calls routine scheduler))
  charge : ∀ scheduler index execUs, invariant scheduler →
    invariant (scheduler.modifySlot index (Task.charge execUs))
  advance : ∀ scheduler index start, invariant scheduler →
    invariant (scheduler.modifySlot index (Task.advance start))
  finalize : ∀ scheduler index finalizer, invariant scheduler →
    (scheduler.slot index).finalizer = some finalizer →
    invariant (scheduler.modifySlot index fun task => { task with finalizer := none }) ∧
      wanted (.finalized (scheduler.slot index).taskId finalizer)
  finalizerCalls : ∀ scheduler routine, invariant scheduler →
    invariant (performAll scheduler (turn.finalizerCalls routine scheduler))
  clear : ∀ scheduler index, invariant scheduler → invariant (scheduler.modifySlot index Task.clear)

section Kept

variable {turn : Turn} {invariant : Scheduler → Prop} {wanted : Event → Prop}

def Good (invariant : Scheduler → Prop) (wanted : Event → Prop)
    (result : List Event × Scheduler) : Prop :=
  invariant result.2 ∧ ∀ event ∈ result.1, wanted event

theorem good_append {events : List Event} {result : List Event × Scheduler}
    (hevents : ∀ event ∈ events, wanted event) (hresult : Good invariant wanted result) :
    Good invariant wanted (events ++ result.1, result.2) := by
  refine ⟨hresult.1, fun event hevent => ?_⟩
  rcases mem_append.mp hevent with hearly | hlate
  · exact hevents event hearly
  · exact hresult.2 event hlate

variable {scheduler : Scheduler} {index : ℕ}

section

variable (hkeeps : Keeps turn invariant wanted)
include hkeeps

section

variable (hscheduler : invariant scheduler)
include hscheduler

theorem good_runFinalizer (index : ℕ) :
    Good invariant wanted (runFinalizer turn index scheduler) := by
  unfold runFinalizer
  split
  case h_1 => exact ⟨hscheduler, nofun⟩
  case h_2 finalizer hfinalizer =>
    obtain ⟨hnext, hevent⟩ := hkeeps.finalize scheduler index finalizer hscheduler hfinalizer
    refine ⟨hkeeps.finalizerCalls _ _ hnext, fun event hmem => ?_⟩
    rw [mem_singleton.mp hmem, slot_modifySlot]
    split <;> exact hevent

theorem good_handleExecutive (hmode : (scheduler.slot index).taskMode ≠ .inline) :
    Good invariant wanted (handleExecutive turn index scheduler) := by
  unfold handleExecutive
  split
  case h_1 => exact ⟨hscheduler, nofun⟩
  case h_2 executive _ =>
    have hpassed := hkeeps.pass scheduler index hmode hscheduler
    split
    · exact good_runFinalizer hkeeps hpassed index
    · exact ⟨hpassed, nofun⟩

theorem good_invokeTask (hattempts : (scheduler.slot index).maxAttempts ≠ 0)
    (hsignal : (scheduler.slot index).pendingSig = .none) (place : ℕ) :
    Good invariant wanted (invokeTask turn place index scheduler) := by
  unfold invokeTask
  dsimp only
  split
  case h_1 => exact ⟨hscheduler, nofun⟩
  case h_2 routine hroutine =>
    have hpicked := hkeeps.outside scheduler scheduler.rebaseStartPriotask
      (max scheduler.minVruntime (scheduler.slot index).vruntime) hscheduler
    obtain ⟨hevent, hrunning⟩ := hkeeps.invoke _ index routine hpicked hroutine hattempts hsignal
    refine ⟨hkeeps.charge _ _ _ (hkeeps.calls _ routine hrunning), fun event hmem => ?_⟩
    rw [mem_singleton.mp hmem]
    exact hevent

end

end

theorem pendingSig_consumeSignal {task : Task} : task.consumeSignal.pendingSig = .none := by
  unfold Task.consumeSignal
  split <;> rfl

theorem pendingSig_slot_consumed (scheduler : Scheduler) (index : ℕ) :
    ((scheduler.modifySlot index Task.consumeSignal).slot index).pendingSig = .none := by
  rw [slot_modifySlot]
  split
  case isTrue => exact pendingSig_consumeSignal
  case isFalse houtside =>
    have hlength : scheduler.tasks.length ≤ index :=
      Nat.le_of_not_lt fun hinside => houtside ⟨rfl, hinside⟩
    rw [Scheduler.slot, getD_eq_default _ _ hlength]

section

variable (hkeeps : Keeps turn invariant wanted)
include hkeeps

theorem good_handleInline (hscheduler : invariant scheduler)
    (hmode : (scheduler.slot index).taskMode = .inline) (place : ℕ) :
    Good invariant wanted (handleInline turn place index scheduler).2 := by
  have hconsumed := hkeeps.consume scheduler index hmode hscheduler
  have hsignal := pendingSig_slot_consumed scheduler index
  unfold handleInline
  dsimp only
  generalize scheduler.modifySlot index Task.consumeSignal = consumed at hconsumed hsignal ⊢
  split
  · exact ⟨hconsumed, nofun⟩
  split
  · exact ⟨hconsumed, nofun⟩
  have hclamped := hkeeps.clamp consumed index (turn.startedAt place) hconsumed
  have hsignal' : ((consumed.modifySlot index
      (Task.clampLast (turn.startedAt place))).slot index).pendingSig = .none := by
    rw [slot_modifySlot]
    split <;> exact hsignal
  split
  case isTrue hdue =>
    have hinvoked := good_invokeTask hkeeps hclamped hdue.1 hsignal' place
    exact ⟨hkeeps.advance _ _ _ hinvoked.1, hinvoked.2⟩
  case isFalse => exact ⟨hclamped, nofun⟩

theorem good_handleSlots (indices : List ℕ) (place : ℕ) (hscheduler : invariant scheduler) :
    Good invariant wanted (handleSlots turn place indices scheduler) := by
  induction indices generalizing place scheduler with
  | nil => exact ⟨hscheduler, nofun⟩
  | cons index rest ih =>
    rw [handleSlots]
    split
    case isTrue hmode =>
      have hhandled := good_handleExecutive hkeeps hscheduler hmode
      exact good_append hhandled.2 (ih (place + 1) hhandled.1)
    case isFalse hmode =>
      have hhandled := good_handleInline hkeeps hscheduler (not_not.mp hmode) place
      dsimp only
      split
      · exact ⟨hkeeps.outside _ false _ hhandled.1, hhandled.2⟩
      · exact good_append hhandled.2 (ih (place + 1) hhandled.1)

theorem good_removeExpiredFrom {indices : List ℕ} (hscheduler : invariant scheduler) :
    Good invariant wanted (removeExpiredFrom turn indices scheduler) := by
  induction indices generalizing scheduler with
  | nil => exact ⟨hscheduler, nofun⟩
  | cons index rest ih =>
    rw [removeExpiredFrom]
    split
    · have hfinalized := good_runFinalizer hkeeps hscheduler index
      exact good_append hfinalized.2 (ih (hkeeps.clear _ index hfinalized.1))
    · exact ih hscheduler

theorem good_handleTasks (hscheduler : invariant scheduler) :
    Good invariant wanted (handleTasks turn scheduler) := by
  have hslots := good_handleSlots hkeeps (getSortedTaskList turn.score turn.sortedAt scheduler) 0
    (hkeeps.outside scheduler true scheduler.minVruntime hscheduler)
  exact good_append hslots.2 (good_removeExpiredFrom hkeeps hslots.1)

end

end Kept

end PdiStack.Turns
