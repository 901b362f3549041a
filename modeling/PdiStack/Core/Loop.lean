import Mathlib

/-!
# Loops with a variant

A `while (1)` loop is a body that either goes round again from a new state or leaves with
a result.  When some size of the state falls with every further pass the loop ends, and
`run` is its result.  `run_again` and `run_done` unfold it pass by pass, and
`run_induction` carries a relation between state and result through a whole run.

A `for` loop over an index is `countUp` or `countDown`.
-/

namespace PdiStack.Loop

variable {State Result : Type*}

/-- How one pass of a loop ends. -/
inductive Pass (State Result : Type*) where
  | again (state : State)
  | done (result : Result)
deriving DecidableEq

/-- The state a pass leaves, in a loop whose result is its last state. -/
def Pass.state : Pass State State → State
  | .again state => state
  | .done state => state

def Pass.map (change : State → State) : Pass State State → Pass State State
  | .again state => .again (change state)
  | .done state => .done (change state)

/-- Every pass that goes round again makes the state smaller. -/
def Variant (body : State → Pass State Result) (size : State → ℕ) : Prop :=
  ∀ state next, body state = .again next → size next < size state

/-- The result of a loop that leaves within the given number of passes. -/
def runFor (body : State → Pass State Result) : ℕ → State → Option Result
  | 0, _ => none
  | passes + 1, state =>
    match body state with
    | .again next => runFor body passes next
    | .done result => some result

variable {body : State → Pass State Result} {size : State → ℕ}

variable {result : Result} {next state : State} {passes : ℕ}

theorem runFor_again (passes : ℕ) (hbody : body state = .again next) :
    runFor body (passes + 1) state = runFor body passes next := by
  rw [runFor, hbody]

theorem runFor_done (passes : ℕ) (hbody : body state = .done result) :
    runFor body (passes + 1) state = some result := by
  rw [runFor, hbody]

/-- More passes than the size are enough, and how many more does not matter. -/
theorem runFor_eq_of_lt (hvariant : Variant body size) (henough : size state < passes) :
    ∃ result, ∀ more, size state < more → runFor body more state = some result := by
  induction passes generalizing state with
  | zero => exact absurd henough (Nat.not_lt_zero _)
  | succ passes ih =>
    cases hbody : body state with
    | again next =>
      have hless := hvariant state next hbody
      obtain ⟨result, hresult⟩ := ih (lt_of_lt_of_le hless (Nat.le_of_lt_succ henough))
      refine ⟨result, fun more hmore => ?_⟩
      obtain ⟨fewer, rfl⟩ := Nat.exists_eq_succ_of_ne_zero (Nat.ne_of_gt (Nat.zero_lt_of_lt hmore))
      rw [runFor_again fewer hbody]
      exact hresult fewer (lt_of_lt_of_le hless (Nat.le_of_lt_succ hmore))
    | done result =>
      refine ⟨result, fun more hmore => ?_⟩
      obtain ⟨fewer, rfl⟩ := Nat.exists_eq_succ_of_ne_zero (Nat.ne_of_gt (Nat.zero_lt_of_lt hmore))
      exact runFor_done fewer hbody

theorem runFor_isSome (hvariant : Variant body size) {state : State} :
    (runFor body (size state + 1) state).isSome := by
  obtain ⟨result, hresult⟩ := runFor_eq_of_lt hvariant (Nat.lt_succ_self (size state))
  rw [hresult _ (Nat.lt_succ_self _), Option.isSome_some]

def run (body : State → Pass State Result) (size : State → ℕ) (hvariant : Variant body size)
    (state : State) : Result :=
  (runFor body (size state + 1) state).get (runFor_isSome hvariant)

section

variable (hvariant : Variant body size)
include hvariant

theorem run_eq_of_runFor (henough : size state < passes)
    (hresult : runFor body passes state = some result) : run body size hvariant state = result := by
  obtain ⟨found, hfound⟩ := runFor_eq_of_lt hvariant henough
  have hsame : found = result := Option.some.inj ((hfound _ henough).symm.trans hresult)
  rw [run, Option.get_of_eq_some _ (hfound _ (Nat.lt_succ_self _)), hsame]

theorem runFor_eq_run (henough : size state < passes) :
    runFor body passes state = some (run body size hvariant state) := by
  obtain ⟨found, hfound⟩ := runFor_eq_of_lt hvariant henough
  rw [hfound _ henough, run_eq_of_runFor hvariant henough (hfound _ henough)]

theorem run_again (hbody : body state = .again next) :
    run body size hvariant state = run body size hvariant next := by
  refine run_eq_of_runFor hvariant (Nat.lt_succ_self _) ?_
  rw [runFor_again _ hbody]
  exact runFor_eq_run hvariant (hvariant state next hbody)

theorem run_done (hbody : body state = .done result) : run body size hvariant state = result :=
  run_eq_of_runFor hvariant (Nat.lt_succ_self _) (runFor_done _ hbody)

/-- A relation between state and result that the last pass establishes and every
earlier pass hands back holds of a whole run. -/
theorem run_induction {motive : State → Result → Prop}
    (again : ∀ state next result, body state = .again next → motive next result →
      motive state result)
    (done : ∀ state result, body state = .done result → motive state result) (state : State) :
    motive state (run body size hvariant state) := by
  generalize hsize : size state = bound
  induction bound using Nat.strongRecOn generalizing state with
  | ind bound ih =>
    cases hbody : body state with
    | again next =>
      rw [run_again hvariant hbody]
      have hless := hvariant state next hbody
      exact again state next _ hbody (ih _ (hsize ▸ hless) next rfl)
    | done result =>
      rw [run_done hvariant hbody]
      exact done state result hbody

end

/-- What every pass keeps holds of the result when it is a state. -/
theorem run_invariant {body : State → Pass State State} {motive : State → Prop}
    (hstep : ∀ state, motive state → motive (body state).state)
    (hvariant : Variant body size) (hstate : motive state) :
    motive (run body size hvariant state) := by
  refine run_induction hvariant (motive := fun state result => motive state → motive result)
    (fun state next result hbody hrest hstate => hrest ?_) (fun state result hbody hstate => ?_)
    state hstate
  all_goals
    have hnext := hstep state hstate
    rwa [hbody] at hnext

/-- The states at the top of the passes of a loop. -/
def Reaches (body : State → Pass State Result) : State → State → Prop :=
  Relation.ReflTransGen fun state next => body state = .again next

theorem reaches_again (hbody : body state = .again next) (reached : State) :
    Reaches body state reached ↔ reached = state ∨ Reaches body next reached := by
  rw [Reaches, Relation.ReflTransGen.cases_head_iff]
  constructor
  · rintro (rfl | ⟨other, hother, hrest⟩)
    · exact .inl rfl
    · rw [hbody] at hother
      cases hother
      exact .inr hrest
  · rintro (rfl | hrest)
    · exact .inl rfl
    · exact .inr ⟨next, hbody, hrest⟩

/-- A loop ends as it does from any state it gets to. -/
theorem run_of_reaches (hvariant : Variant body size) {reached : State}
    (hreaches : Reaches body state reached) :
    run body size hvariant state = run body size hvariant reached := by
  induction hreaches with
  | refl => rfl
  | tail _ hbody ih => rw [ih, run_again hvariant hbody]

theorem reaches_done (hbody : body state = .done result) (reached : State) :
    Reaches body state reached ↔ reached = state := by
  rw [Reaches, Relation.ReflTransGen.cases_head_iff]
  constructor
  · rintro (rfl | ⟨other, hother, -⟩)
    · rfl
    · rw [hbody] at hother
      cases hother
  · rintro rfl
    exact .inl rfl

/-- `for (i = 0; i < count; i++)`. -/
def countUp (body : ℕ → State → State) : ℕ → State → State
  | 0, state => state
  | count + 1, state => body count (countUp body count state)

/-- `for (i = count - 1; i >= 0; i--)`. -/
def countDown (body : ℕ → State → State) : ℕ → State → State
  | 0, state => state
  | count + 1, state => countDown body count (body count state)

theorem countUp_invariant {body : ℕ → State → State} {count : ℕ} (invariant : ℕ → State → Prop)
    (hstart : invariant 0 state)
    (hstep : ∀ index now, index < count → invariant index now →
      invariant (index + 1) (body index now)) :
    invariant count (countUp body count state) := by
  induction count with
  | zero => exact hstart
  | succ count ih =>
    refine hstep count _ (Nat.lt_succ_self count) (ih fun index now hindex => ?_)
    exact hstep index now (Nat.lt_succ_of_lt hindex)

theorem countDown_invariant {body : ℕ → State → State} {count : ℕ} (invariant : ℕ → State → Prop)
    (hstart : invariant count state)
    (hstep : ∀ index now, index < count → invariant (index + 1) now →
      invariant index (body index now)) :
    invariant 0 (countDown body count state) := by
  induction count generalizing state with
  | zero => exact hstart
  | succ count ih =>
    refine ih (hstep count state (Nat.lt_succ_self count) hstart) fun index now hindex => ?_
    exact hstep index now (Nat.lt_succ_of_lt hindex)

end PdiStack.Loop
