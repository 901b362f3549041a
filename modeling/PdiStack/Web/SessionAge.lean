import PdiStack.Core.StateMachine
import PdiStack.Web.WebSessions

/-!
# The age of a web session

`validate` checks how long a session was idle and how long it has lived against the
device clock, which shows the real time modulo 2^32 milliseconds.  Here the calls happen
at real times, and a log says when a session was really created and last used.  `OnTime`
compares that with what `validate` answered.

The computed ages are right below 2^32 milliseconds.  A session that nobody swept for
longer looks young again.
-/

namespace PdiStack.SessionAge

open StringOperations WebSessions StateMachine List Option

def millisNow (time : ℕ) : UInt32 := UInt32.ofNat time

/-- A call of the session manager, with the random tokens that `create` draws. -/
inductive Call where
  | create (idleMaxAge : UInt32) (token csrf username : Text) (uid gid : UInt16)
  | validate (idleMaxAge : UInt32) (token : Text)
deriving DecidableEq, Repr

structure Event where
  time : ℕ
  slot : ℕ
  idleMaxAge : UInt32
  created : Bool
deriving DecidableEq, Repr

/-- The session table, the real time of the last call, and the log with the latest
event first. -/
structure Portal where
  time : ℕ
  sessions : List WebSession
  log : List Event
deriving DecidableEq, Repr

def Portal.fresh (slots : ℕ) : Portal where
  time := 0
  sessions := replicate slots .clear
  log := []

def logged (time : ℕ) (idleMaxAge : UInt32) (created : Bool) (answer : Option ℕ)
    (log : List Event) : List Event :=
  match answer with
  | none => log
  | some slot => ⟨time, slot, idleMaxAge, created⟩ :: log

def step (portal : Portal) : ℕ × Call → Option ℕ × Portal
  | (gap, .create idleMaxAge token csrf username uid gid) =>
    let time := portal.time + gap
    let (answer, sessions) :=
      create idleMaxAge (millisNow time) token csrf username uid gid portal.sessions
    (answer, ⟨time, sessions, logged time idleMaxAge true answer portal.log⟩)
  | (gap, .validate idleMaxAge token) =>
    let time := portal.time + gap
    let (answer, sessions) := validate idleMaxAge (millisNow time) token portal.sessions
    (answer, ⟨time, sessions, logged time idleMaxAge false answer portal.log⟩)

def createdAt (slot : ℕ) (log : List Event) : Option ℕ :=
  (log.find? fun event => event.created && event.slot = slot).map Event.time

/-- When the session in a slot was created or last validated. -/
def activeAt (slot : ℕ) (log : List Event) : Option ℕ :=
  (log.find? fun event => event.slot = slot).map Event.time

/-- The session of an event has really been idle for at most `idleMaxAge` seconds and
has really existed for at most `WEB_SESSION_ABSOLUTE_MAX_AGE` seconds. -/
def Within (event : Event) (before : List Event) : Prop :=
  ∃ active ∈ activeAt event.slot before, ∃ created ∈ createdAt event.slot before,
    (event.time - active) / 1000 ≤ event.idleMaxAge.toNat ∧
      (event.time - created) / 1000 ≤ webSessionAbsoluteMaxAge.toNat

/-- Every answer of `validate` in the log names a session within its limits. -/
def OnTime : List Event → Prop
  | [] => True
  | event :: before => (event.created = false → Within event before) ∧ OnTime before

instance (event : Event) (before : List Event) : Decidable (Within event before) :=
  inferInstanceAs (Decidable (∃ active ∈ activeAt event.slot before, _))

instance decidableOnTime : ∀ log, Decidable (OnTime log)
  | [] => .isTrue trivial
  | event :: before =>
    have : Decidable (OnTime before) := decidableOnTime before
    inferInstanceAs (Decidable ((event.created = false → Within event before) ∧ _))

section Log

variable {time slot other : ℕ} {idleMaxAge : UInt32} {log : List Event}

@[simp]
theorem createdAt_created : createdAt slot (⟨time, slot, idleMaxAge, true⟩ :: log) = some time := by
  simp [createdAt]

@[simp]
theorem createdAt_validated :
    createdAt slot (⟨time, other, idleMaxAge, false⟩ :: log) = createdAt slot log := by
  simp [createdAt]

@[simp]
theorem activeAt_self {created : Bool} :
    activeAt slot (⟨time, slot, idleMaxAge, created⟩ :: log) = some time := by
  simp [activeAt]

theorem createdAt_other {created : Bool} (hother : other ≠ slot) :
    createdAt slot (⟨time, other, idleMaxAge, created⟩ :: log) = createdAt slot log := by
  simp [createdAt, hother]

theorem activeAt_other {created : Bool} (hother : other ≠ slot) :
    activeAt slot (⟨time, other, idleMaxAge, created⟩ :: log) = activeAt slot log := by
  simp [activeAt, hother]

end Log

/-- The device clock shows an age as it is if it is below 2^32 milliseconds. -/
theorem secondsSince_millisNow {now stamp : ℕ} (hstamp : stamp ≤ now)
    (hrecent : now < stamp + 2 ^ 32) :
    (secondsSince (millisNow now) (millisNow stamp)).toNat = (now - stamp) / 1000 := by
  have hage : (millisNow now - millisNow stamp).toNat = now - stamp := by
    rw [UInt32.toNat_sub, millisNow, millisNow, UInt32.toNat_ofNat', UInt32.toNat_ofNat']
    omega
  rw [secondsSince, UInt32.toNat_div, hage]
  rfl

/-- What a session in use says about itself, against the log. -/
structure Stamped (time slot : ℕ) (log : List Event) (session : WebSession)
    (created active : ℕ) : Prop where
  createdAt_eq : createdAt slot log = some created
  activeAt_eq : activeAt slot log = some active
  loginAt_eq : session.loginAt = millisNow created
  lastActivityAt_eq : session.lastActivityAt = millisNow active
  created_le : created ≤ active
  active_le : active ≤ time

def AllStamped (time : ℕ) (sessions : List WebSession) (log : List Event) : Prop :=
  ∀ slot session, sessions[slot]? = some session → session.occupied = true →
    ∃ created active, Stamped time slot log session created active

/-- A session that does not look expired, and was created less than 2^32 milliseconds
ago, is within its limits. -/
theorem Stamped.within {time slot created active : ℕ} {idleMaxAge : UInt32} {log : List Event}
    {session : WebSession} (hstamped : Stamped time slot log session created active)
    (hexpired : isExpired idleMaxAge (millisNow time) session = false)
    (hrecent : time < created + 2 ^ 32) :
    Within ⟨time, slot, idleMaxAge, false⟩ log := by
  obtain ⟨hcreated, hactive, hlogin, hlast, hle, hnow⟩ := hstamped
  rw [isExpired, decide_eq_false_iff_not, not_or, hlogin, hlast, UInt32.not_lt, UInt32.not_lt,
    UInt32.le_iff_toNat_le, UInt32.le_iff_toNat_le, secondsSince_millisNow hnow (by omega),
    secondsSince_millisNow (hle.trans hnow) hrecent] at hexpired
  exact ⟨active, hactive, created, hcreated, hexpired⟩

section Sweep

variable {time slot : ℕ} {idleMaxAge now : UInt32} {sessions : List WebSession} {log : List Event}

/-- A session in use after a sweep was there before and does not look expired. -/
theorem kept_of_collectExpired {session : WebSession}
    (hsession : (collectExpired idleMaxAge now sessions)[slot]? = some session)
    (hoccupied : session.occupied = true) :
    sessions[slot]? = some session ∧ isExpired idleMaxAge now session = false := by
  rw [collectExpired, getElem?_map, map_eq_some_iff] at hsession
  obtain ⟨before, hbefore, hkept⟩ := hsession
  split at hkept
  · subst hkept
    cases hoccupied
  case isFalse hlive =>
    subst hkept
    rw [hoccupied, Bool.not_eq_true] at hlive
    exact ⟨hbefore, hlive⟩

theorem AllStamped.collectExpired (hstamped : AllStamped time sessions log) :
    AllStamped time (collectExpired idleMaxAge now sessions) log :=
  fun slot session hsession hoccupied =>
    hstamped slot session (kept_of_collectExpired hsession hoccupied).1 hoccupied

/-- Time passes. -/
theorem AllStamped.mono {later : ℕ} (hstamped : AllStamped time sessions log)
    (hlater : time ≤ later) : AllStamped later sessions log := by
  intro slot session hsession hoccupied
  obtain ⟨created, active, hall⟩ := hstamped slot session hsession hoccupied
  exact ⟨created, active, { hall with active_le := hall.active_le.trans hlater }⟩

/-- Writing an event of a slot leaves the stamps of the other slots. -/
theorem Stamped.other {found created active : ℕ} {isCreated : Bool} {session : WebSession}
    (hstamped : Stamped time slot log session created active) (hfound : found ≠ slot) :
    Stamped time slot (⟨time, found, idleMaxAge, isCreated⟩ :: log) session created active :=
  { hstamped with
    createdAt_eq := (createdAt_other hfound).trans hstamped.createdAt_eq
    activeAt_eq := (activeAt_other hfound).trans hstamped.activeAt_eq }

/-- A call that changes the slot it answers with keeps the stamps if it stamps that
slot. -/
theorem AllStamped.modify {found : ℕ} {isCreated : Bool} {change : WebSession → WebSession}
    (hstamped : AllStamped time sessions log)
    (hfound : ∀ session, sessions[found]? = some session → (change session).occupied = true →
      ∃ created, Stamped time found (⟨time, found, idleMaxAge, isCreated⟩ :: log) (change session)
        created time) :
    AllStamped time (sessions.modify found change)
      (⟨time, found, idleMaxAge, isCreated⟩ :: log) := by
  intro slot session hsession hoccupied
  by_cases hslot : found = slot
  · subst hslot
    rw [getElem?_modify_eq, Option.map_eq_map, Option.map_eq_some_iff] at hsession
    obtain ⟨before, hbefore, rfl⟩ := hsession
    obtain ⟨created, hall⟩ := hfound before hbefore hoccupied
    exact ⟨created, time, hall⟩
  · rw [getElem?_modify_ne _ _ hslot] at hsession
    obtain ⟨created, active, hall⟩ := hstamped slot session hsession hoccupied
    exact ⟨created, active, hall.other hslot⟩

/-- `create` keeps the stamps: the slot it answers with is created now. -/
theorem AllStamped.create {token csrf username : Text} {uid gid : UInt16}
    (hstamped : AllStamped time sessions log) :
    AllStamped time
      (create idleMaxAge (millisNow time) token csrf username uid gid sessions).2
      (logged time idleMaxAge true
        (create idleMaxAge (millisNow time) token csrf username uid gid sessions).1 log) := by
  dsimp only [WebSessions.create]
  split
  · exact hstamped
  split
  · exact hstamped.collectExpired
  case h_2 slot _ =>
    apply hstamped.collectExpired.modify
    intro session _ _
    exact ⟨time, createdAt_created, activeAt_self, rfl, rfl, le_rfl, le_rfl⟩

/-- The slot that `validate` answers with held, before the call, a session in use with
the token that does not look expired. -/
theorem found_of_slotOf {token : Text}
    (hslot : slotOf token (WebSessions.collectExpired idleMaxAge now sessions) = some slot) :
    ∃ session, (WebSessions.collectExpired idleMaxAge now sessions)[slot]? = some session ∧
      sessions[slot]? = some session ∧ session.occupied = true ∧ session.token = token ∧
      isExpired idleMaxAge now session = false := by
  rw [slotOf, findIdx?_eq_some_iff_getElem] at hslot
  obtain ⟨hlength, hfound, -⟩ := hslot
  rw [Bool.and_eq_true, decide_eq_true_eq] at hfound
  have hswept := getElem?_eq_getElem hlength
  obtain ⟨hbefore, hlive⟩ := kept_of_collectExpired hswept hfound.1
  exact ⟨_, hswept, hbefore, hfound.1, hfound.2, hlive⟩

end Sweep

/-- At a call of `validate`, a session in use that has the token and does not look
expired was created less than 2^32 milliseconds ago. -/
def Recent (portal : Portal) : ℕ × Call → Prop
  | (_, .create ..) => True
  | (gap, .validate idleMaxAge token) =>
    ∀ entry ∈ portal.sessions.zipIdx, entry.1.occupied = true → entry.1.token = cString token →
      isExpired idleMaxAge (millisNow (portal.time + gap)) entry.1 = false →
      ∀ created ∈ createdAt entry.2 portal.log, portal.time + gap < created + 2 ^ 32

instance (portal : Portal) : ∀ call, Decidable (Recent portal call)
  | (_, .create ..) => .isTrue trivial
  | (gap, .validate idleMaxAge token) =>
    inferInstanceAs (Decidable (∀ entry ∈ portal.sessions.zipIdx, entry.1.occupied = true →
      entry.1.token = cString token →
      isExpired idleMaxAge (millisNow (portal.time + gap)) entry.1 = false →
      ∀ created ∈ createdAt entry.2 portal.log, portal.time + gap < created + 2 ^ 32))

/-- The stamps are those of the log, and the answers so far were within the limits. -/
structure Timely (portal : Portal) : Prop where
  stamped : AllStamped portal.time portal.sessions portal.log
  onTime : OnTime portal.log

theorem timely_fresh {slots : ℕ} : Timely (Portal.fresh slots) where
  stamped := by
    intro slot session hsession hoccupied
    rw [Portal.fresh, getElem?_replicate, ite_none_right_eq_some] at hsession
    rw [← some.inj hsession.2] at hoccupied
    cases hoccupied
  onTime := trivial

theorem onTime_logged_created {time : ℕ} {idleMaxAge : UInt32} {log : List Event}
    (hlog : OnTime log) {answer : Option ℕ} : OnTime (logged time idleMaxAge true answer log) := by
  cases answer with
  | none => exact hlog
  | some slot => exact ⟨nofun, hlog⟩

/-- `validate` at a time when the sessions with the token are recent. -/
theorem timely_validate {portal : Portal} {gap : ℕ} {idleMaxAge : UInt32} {token : Text}
    (hportal : Timely portal) (hrecent : Recent portal (gap, .validate idleMaxAge token)) :
    Timely (step portal (gap, .validate idleMaxAge token)).2 := by
  have hstamped := hportal.stamped.mono (Nat.le_add_right portal.time gap)
  dsimp only [step, validate]
  split
  · exact ⟨hstamped, hportal.onTime⟩
  split
  · exact ⟨hstamped.collectExpired, hportal.onTime⟩
  case h_2 slot hslot =>
    obtain ⟨session, hswept, hbefore, hoccupied, htoken, hlive⟩ := found_of_slotOf hslot
    obtain ⟨created, active, hsession⟩ := hstamped slot session hbefore hoccupied
    have hage : portal.time + gap < created + 2 ^ 32 :=
      hrecent (session, slot) (mem_zipIdx_iff_getElem?.mpr hbefore) hoccupied htoken hlive
        created hsession.createdAt_eq
    refine ⟨hstamped.collectExpired.modify fun other hother _ => ?_,
      fun _ => hsession.within hlive hage, hportal.onTime⟩
    rw [hswept] at hother
    cases hother
    exact ⟨created, createdAt_validated.trans hsession.createdAt_eq, activeAt_self,
      hsession.loginAt_eq, rfl, hsession.created_le.trans hsession.active_le, le_rfl⟩

theorem timely_step {portal : Portal} {call : ℕ × Call} (hrecent : Recent portal call)
    (hportal : Timely portal) : Timely (step portal call).2 := by
  obtain ⟨gap, call⟩ := call
  cases call with
  | create idleMaxAge token csrf username uid gid =>
    exact ⟨(hportal.stamped.mono (Nat.le_add_right portal.time gap)).create,
      onTime_logged_created hportal.onTime⟩
  | validate idleMaxAge token => exact timely_validate hportal hrecent

/-- In a run of calls with any gaps, where `validate` is only called while the sessions
with the token that do not look expired are younger than 2^32 milliseconds, `validate`
answers with a session only within its limits. -/
theorem sessions_end_on_time (slots : ℕ) (calls : List (ℕ × Call))
    (hrecent : Allowed step Recent calls (Portal.fresh slots)) :
    OnTime (run step calls (Portal.fresh slots)).2.log :=
  (run_invariant_of_allowed Timely (fun _ => True)
    (fun _ _ hcall hportal => ⟨timely_step hcall hportal, trivial⟩)
    calls hrecent timely_fresh).1.onTime

def sampleToken : Text := replicate webSessionTokenHexLen 0x61

/-- A login whose session is then looked up after a gap. -/
def returning (gap : ℕ) : List (ℕ × Call) :=
  [(0, .create 300 sampleToken sampleToken (text "admin") 0 0), (gap, .validate 300 sampleToken)]

/-- Five minutes after the login the session is still there. -/
theorem returning_in_time :
    (run step (returning 300000) (Portal.fresh 2)).2.log.length = 2 ∧
      OnTime (run step (returning 300000) (Portal.fresh 2)).2.log :=
  ⟨by decide +kernel, sessions_end_on_time 2 _ (by decide +kernel)⟩

/-- So is it after 2^32 milliseconds, when it should have ended weeks ago. -/
theorem returning_weeks_later :
    ¬ OnTime (run step (returning (2 ^ 32)) (Portal.fresh 2)).2.log := by
  decide +kernel

end PdiStack.SessionAge
