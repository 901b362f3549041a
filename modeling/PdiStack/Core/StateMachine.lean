import Mathlib

/-!
# Runs of a state machine

A machine takes one input at a time, answers it and moves to its next state.  The
history of a run lists every input with its answer.  What one step preserves, a
run preserves: this is stated for invariants of the state and for simulations by
an abstract state that only sees the history.
-/

namespace PdiStack.StateMachine

variable {State Input Output Abstract : Type*}

/-- Feed a list of inputs to a machine, keeping the history. -/
def run (step : State → Input → Output × State) : List Input → State → List (Input × Output) × State
  | [], state => ([], state)
  | input :: inputs, state =>
    let (output, state) := step state input
    let (history, state) := run step inputs state
    ((input, output) :: history, state)

variable {step : State → Input → Output × State}

@[simp]
theorem run_nil (state : State) : run step [] state = ([], state) := rfl

theorem run_cons (input : Input) (inputs : List Input) (state : State) :
    run step (input :: inputs) state =
      ((input, (step state input).1) :: (run step inputs (step state input).2).1,
        (run step inputs (step state input).2).2) := rfl

/-- Every step of the run is taken in a state and on an input that `allowed`
holds of. -/
def Allowed (step : State → Input → Output × State) (allowed : State → Input → Prop) :
    List Input → State → Prop
  | [], _ => True
  | input :: inputs, state =>
    allowed state input ∧ Allowed step allowed inputs (step state input).2

instance decidableAllowed {allowed : State → Input → Prop}
    [∀ state input, Decidable (allowed state input)] :
    ∀ inputs state, Decidable (Allowed step allowed inputs state)
  | [], _ => .isTrue trivial
  | input :: inputs, state =>
    have : Decidable (Allowed step allowed inputs (step state input).2) := decidableAllowed inputs _
    inferInstanceAs (Decidable (allowed state input ∧ _))

variable {abstract : Abstract} {allowed : State → Input → Prop} (invariant : State → Prop)

theorem Allowed.mono {wider : State → Input → Prop}
    (hwider : ∀ state input, allowed state input → wider state input) :
    ∀ {inputs state}, Allowed step allowed inputs state → Allowed step wider inputs state
  | [], _, _ => trivial
  | _ :: _, _, hallowed => ⟨hwider _ _ hallowed.1, Allowed.mono hwider hallowed.2⟩

theorem run_append_state (first second : List Input) (state : State) :
    (run step (first ++ second) state).2 = (run step second (run step first state).2).2 := by
  induction first generalizing state with
  | nil => rfl
  | cons input first ih => exact ih _

theorem allowed_append (first second : List Input) (state : State) :
    Allowed step allowed (first ++ second) state ↔
      Allowed step allowed first state ∧ Allowed step allowed second (run step first state).2 := by
  induction first generalizing state with
  | nil => simp [Allowed]
  | cons input first ih =>
    rw [List.cons_append, Allowed, Allowed, ih, and_assoc]
    exact Iff.rfl

/-- A relation between the state and an abstract state that every allowed step
preserves, when the abstract state moves on the input and the answer alone, holds
after every run of allowed steps. -/
theorem run_simulation_of_allowed (apply : Abstract → Input × Output → Abstract)
    (relates : State → Abstract → Prop)
    (hstep : ∀ state abstract input, allowed state input → relates state abstract →
      relates (step state input).2 (apply abstract (input, (step state input).1)))
    (inputs : List Input) {state : State} (hallowed : Allowed step allowed inputs state)
    (hrelates : relates state abstract) :
    relates (run step inputs state).2 ((run step inputs state).1.foldl apply abstract) := by
  induction inputs generalizing state abstract with
  | nil => exact hrelates
  | cons input inputs ih =>
    exact ih hallowed.2 (hstep state abstract input hallowed.1 hrelates)

/-- What every allowed step keeps of the state, and what it makes of its answer, holds
after a run of allowed steps and of every answer in it. -/
theorem run_invariant_of_allowed (wanted : Output → Prop)
    (hstep : ∀ state input, allowed state input → invariant state →
      invariant (step state input).2 ∧ wanted (step state input).1) (inputs : List Input)
    {state : State} (hallowed : Allowed step allowed inputs state) (hstate : invariant state) :
    invariant (run step inputs state).2 ∧ ∀ entry ∈ (run step inputs state).1, wanted entry.2 := by
  induction inputs generalizing state with
  | nil => exact ⟨hstate, nofun⟩
  | cons input inputs ih =>
    obtain ⟨hnext, hanswer⟩ := hstep state input hallowed.1 hstate
    obtain ⟨hlast, hhistory⟩ := ih hallowed.2 hnext
    refine ⟨hlast, fun entry hentry => ?_⟩
    rcases List.mem_cons.mp hentry with rfl | hrest
    · exact hanswer
    · exact hhistory entry hrest

theorem allowed_of_forall (hall : ∀ state input, allowed state input) (inputs : List Input)
    (state : State) :
    Allowed step allowed inputs state := by
  induction inputs generalizing state with
  | nil => trivial
  | cons input inputs ih => exact ⟨hall state input, ih _⟩

theorem allowed_of_mem {inputs : List Input} (hall : ∀ input ∈ inputs, ∀ state, allowed state input)
    (state : State) :
    Allowed step allowed inputs state := by
  induction inputs generalizing state with
  | nil => trivial
  | cons input inputs ih =>
    exact ⟨hall input List.mem_cons_self state,
      ih (fun other hother => hall other (List.mem_cons_of_mem _ hother)) _⟩

/-- A machine that answers as another one does at related states, and stays related to
it, has the same histories. -/
theorem run_refines {abstractStep : Abstract → Input → Output × Abstract}
    (relates : State → Abstract → Prop)
    (hstep : ∀ state abstract input, relates state abstract →
      (step state input).1 = (abstractStep abstract input).1 ∧
        relates (step state input).2 (abstractStep abstract input).2) (inputs : List Input)
    {state : State} (hrelates : relates state abstract) :
    (run step inputs state).1 = (run abstractStep inputs abstract).1 ∧
      relates (run step inputs state).2 (run abstractStep inputs abstract).2 := by
  induction inputs generalizing state abstract with
  | nil => exact ⟨rfl, hrelates⟩
  | cons input inputs ih =>
    obtain ⟨hanswer, hnext⟩ := hstep state abstract input hrelates
    obtain ⟨hhistory, hlast⟩ := ih hnext
    rw [run_cons, run_cons]
    refine ⟨?_, hlast⟩
    rw [hanswer, hhistory]

/-- Every answer of a run is as wanted exactly when every step of it is taken where
it answers so. -/
theorem run_answers_iff (wanted : Output → Prop)
    (hstep : ∀ state input, wanted (step state input).1 ↔ allowed state input) (inputs : List Input)
    (state : State) :
    (∀ entry ∈ (run step inputs state).1, wanted entry.2) ↔ Allowed step allowed inputs state := by
  induction inputs generalizing state with
  | nil => simp [Allowed]
  | cons input inputs ih =>
    rw [run_cons, List.forall_mem_cons, Allowed, hstep, ih]

/-- Two conditions on the steps of a run are the same when they agree at every state that
an invariant holds of, and the steps that meet them keep the invariant. -/
theorem allowed_iff_of_invariant {wanted : State → Input → Prop}
    (hstep : ∀ state input, invariant state → (wanted state input ↔ allowed state input))
    (hkeeps : ∀ state input, invariant state → allowed state input → invariant (step state input).2)
    (inputs : List Input) {state : State} (hstate : invariant state) :
    Allowed step wanted inputs state ↔ Allowed step allowed inputs state := by
  induction inputs generalizing state with
  | nil => exact Iff.rfl
  | cons input inputs ih =>
    rw [Allowed, hstep state input hstate]
    exact and_congr_right fun hinput => ih (hkeeps state input hstate hinput)

/-- A condition on the steps of a run follows from another one where an invariant holds
that the steps keep. -/
theorem Allowed.of_invariant {wanted : State → Input → Prop}
    (hstep : ∀ state input, invariant state → allowed state input →
      wanted state input ∧ invariant (step state input).2) {inputs : List Input} {state : State}
    (hallowed : Allowed step allowed inputs state) (hstate : invariant state) :
    Allowed step wanted inputs state := by
  induction inputs generalizing state with
  | nil => trivial
  | cons input inputs ih =>
    obtain ⟨hwanted, hnext⟩ := hstep state input hstate hallowed.1
    exact ⟨hwanted, ih hallowed.2 hnext⟩

theorem run_simulation (apply : Abstract → Input × Output → Abstract)
    (relates : State → Abstract → Prop)
    (hstep : ∀ state abstract input, relates state abstract →
      relates (step state input).2 (apply abstract (input, (step state input).1)))
    (inputs : List Input) {state : State} (hrelates : relates state abstract) :
    relates (run step inputs state).2 ((run step inputs state).1.foldl apply abstract) :=
  run_simulation_of_allowed apply relates (fun state abstract input _ => hstep state abstract input)
    inputs (allowed_of_forall (fun _ _ => trivial) inputs state) hrelates

/-- Collecting a list from every answer one after the other is collecting it from
the whole history. -/
theorem foldl_append_eq_flatMap {α : Type*} (collect : Output → List α)
    (history : List (Input × Output)) (before : List α) :
    history.foldl (fun seen entry => seen ++ collect entry.2) before =
      before ++ history.flatMap fun entry => collect entry.2 := by
  induction history generalizing before with
  | nil => simp
  | cons entry history ih => simp [ih]

end PdiStack.StateMachine
