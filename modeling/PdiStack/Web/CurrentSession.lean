import PdiStack.Web.Controllers

/-!
# The current session during a request

The session manager of the device has one current session, whose user every check of
file access asks for.  A request that is logged in makes its web session current and
remembers the one it found; when the request has been handled, `release_request_session`
puts that one back, if the web session still is current.  Destroying a web session that
is current leaves nothing current, and forgets what was remembered.
-/

namespace PdiStack.CurrentSession

open StringOperations HttpRequest WebSessions Controllers Option

/-- Who can be the current session: a session of the device, or a slot of the portal. -/
inductive Holder (τ : Type) where
  | device (session : τ)
  | web (slot : ℕ)
deriving DecidableEq, Repr

/-- The portal with the session pointers around it. -/
structure Desk (σ τ : Type) where
  portal : Portal σ
  current : Option (Holder τ)
  active : Option ℕ
  previous : Option (Holder τ)

section Requests

variable {σ τ : Type} [DecidableEq τ] (services : Services σ) (visit : Visit)

/-! ## Pointers -/

/-- What is current after the slots that `clears` holds of have been destroyed. -/
def dropCleared (clears : WebSession → Bool) (sessions : List WebSession)
    (current : Option (Holder τ)) : Option (Holder τ) :=
  match current with
  | some (.web slot) => if sessions[slot]?.any clears then none else current
  | _ => current

variable (desk : Desk σ τ)

/-- What is current after `collectExpired`. -/
def Desk.currentCollected : Option (Holder τ) :=
  dropCleared (fun session => session.occupied &&
      isExpired (services.idleMaxAge desk.portal.world) visit.now session)
    desk.portal.sessions desk.current

/-- `publish_request_session`. -/
def Desk.publish (slot : ℕ) (desk : Desk σ τ) : Desk σ τ :=
  { desk with active := some slot, previous := desk.current, current := some (.web slot) }

/-- `release_request_session`. -/
def Desk.release : Desk σ τ :=
  { desk with
    current :=
      match desk.active with
      | some slot => if desk.current = some (.web slot) then desk.previous else desk.current
      | none => desk.current
    active := none
    previous := none }

def Desk.destroy (slot : ℕ) (desk : Desk σ τ) : Desk σ τ :=
  { desk with
    current := if desk.current = some (.web slot) then none else desk.current
    portal := { desk.portal with sessions := WebSessions.destroy slot desk.portal.sessions } }

def Desk.destroyByUsername (username : Text) (desk : Desk σ τ) : Desk σ τ :=
  { desk with
    current :=
      if username = [] then desk.current
      else dropCleared (fun session => session.occupied && session.username = username)
        desk.portal.sessions desk.current
    portal :=
      { desk.portal with
        sessions := WebSessions.destroyByUsername username desk.portal.sessions } }

def Desk.sendInactiveSessionHeaders : Desk σ τ :=
  match desk.active with
  | some slot => { desk.destroy slot with active := none }.release
  | none => desk.release

/-- Whether `has_active_session` comes to sweep the table: the cookie carries a token of
the right length. -/
def validates (portal : Portal σ) : Bool :=
  header visit.request cookieKey ≠ [] &&
    (extractCookieValue (header visit.request cookieKey) (services.sessionName portal.world)).any
      fun token => (cString token).length = webSessionTokenHexLen

def Desk.hasActiveSession : Bool × Desk σ τ :=
  match desk.active with
  | some _ => (true, desk)
  | none =>
    let found := desk.portal.activeSession services visit none
    let looked : Desk σ τ :=
      { desk with
        portal := found.2
        current :=
          if validates services visit desk.portal then desk.currentCollected services visit
          else desk.current }
    match found.1 with
    | none => (false, looked)
    | some slot => (true, looked.publish slot)

/-! ## Handlers -/

def Desk.handle (route : Route) (desk : Desk σ τ) : Desk σ τ :=
  { desk with portal := route.handle services visit desk.active desk.portal }

def Desk.handleLogoutRoute : Desk σ τ :=
  (desk.hasActiveSession services visit).2.sendInactiveSessionHeaders

def Desk.handleWiFiConfigRoute : Desk σ τ :=
  let written : Desk σ τ :=
    { desk with portal := settingsPage services visit .wifi wifiSubmitted desk.portal }
  if wifiSubmitted visit.request then written.sendInactiveSessionHeaders else written

def changesPassword (slot : Option ℕ) (portal : Portal σ) : Bool :=
  passwordSubmitted services visit slot portal &&
    (updatePassword services slot (usernameOf slot portal)
      (cString (arg visit.request (text "npswd"))) portal).1

def Desk.handleLoginConfigRoute : Desk σ τ :=
  if passwordSubmitted services visit desk.active desk.portal then
    let username := usernameOf desk.active desk.portal
    let updated := updatePassword services desk.active username
      (cString (arg visit.request (text "npswd"))) desk.portal
    let written : Desk σ τ := { desk with portal := updated.2 }
    if updated.1 then (written.destroyByUsername username).sendInactiveSessionHeaders else written
  else desk

/-- The part of `handleLoginRoute` for a request without a session, which adopts the
session that it creates. -/
def Desk.logIn : Desk σ τ :=
  if !hasArgs ["username", "password"] visit.request then desk
  else
    match isLoginBlocked visit.now desk.portal.failures with
    | (true, failures) => { desk with portal := { desk.portal with failures := failures } }
    | (false, failures) =>
      let username := cString (arg visit.request (text "username"))
      if services.isAuthorized username (cString (arg visit.request (text "password")))
          desk.portal.world then
        let ids := (services.findUserByName username desk.portal.world).getD (0, 0)
        let current :=
          if username = [] then desk.current else desk.currentCollected services visit
        match create (services.idleMaxAge desk.portal.world) visit.now visit.token visit.csrf
            username ids.1 ids.2 desk.portal.sessions with
        | (some slot, sessions) =>
          Desk.publish slot
            { desk with
              current := current
              portal := { desk.portal with
                sessions := sessions, failures := clearLoginFailures } }
        | (none, sessions) =>
          { desk with
            current := current
            portal := { desk.portal with sessions := sessions, failures := failures } }
      else
        { desk with
          portal := { desk.portal with failures := registerLoginFailure visit.now failures } }

def Desk.handleLoginRoute : Desk σ τ :=
  match desk.hasActiveSession services visit with
  | (true, desk) => desk
  | (false, desk) => desk.logIn services visit

def Desk.serve (route : Route) (desk : Desk σ τ) : Desk σ τ :=
  match route with
  | .home => (desk.hasActiveSession services visit).2
  | .login => desk.handleLoginRoute services visit
  | .logout => desk.handleLogoutRoute services visit
  | .wifiConfig => desk.handleWiFiConfigRoute services visit
  | .loginConfig => desk.handleLoginConfigRoute services visit
  | route => desk.handle services visit route

def Desk.handleMiddleware (level : Middlewares) (desk : Desk σ τ) : Bool × Desk σ τ :=
  match level with
  | .noMiddleware => (true, desk)
  | level =>
    match desk.hasActiveSession services visit with
    | (false, desk) => (false, desk)
    | (true, desk) =>
      (!(level = .rootAuthMiddleware ∧ uidOf desk.active desk.portal ≠ userStoreRootUid) &&
        guardStateChange visit.request (desk.active.bind fun slot => desk.portal.sessions[slot]?),
        desk)

def Desk.handleRequest : Desk σ τ :=
  match routeOf visit.request with
  | none => (desk.hasActiveSession services visit).2.release
  | some route =>
    match desk.handleMiddleware services visit route.level with
    | (false, desk) => desk.release
    | (true, desk) => (desk.serve services visit route).release

/-- The handler of a route ends the session that the request has, as the middleware left
it: a logout, a change of the wifi settings, and a change of the password. -/
def endsSession (route : Route) (slot : Option ℕ) (portal : Portal σ) : Bool :=
  match route with
  | .logout => (portal.activeSession services visit slot).1.isSome
  | .wifiConfig => slot.isSome && wifiSubmitted visit.request
  | .loginConfig => slot.isSome && changesPassword services visit slot portal
  | _ => false

def endsOwnSession (portal : Portal σ) : Bool :=
  match routeOf visit.request with
  | none => false
  | some route =>
    match Controllers.handleMiddleware services visit route.level portal with
    | (none, _) => false
    | (some slot, portal) => endsSession services visit route slot portal

/-! ## The portal behind the pointers -/

section Portals

variable {services visit} {desk : Desk σ τ}

omit [DecidableEq τ] in
/-- What `has_active_session` finds is what the portal finds. -/
theorem hasActiveSession_portal {services : Services σ} {visit : Visit} {desk : Desk σ τ} :
    ∃ looked, desk.hasActiveSession services visit = (looked.active.isSome, looked) ∧
      desk.portal.activeSession services visit desk.active = (looked.active, looked.portal) := by
  refine ⟨(desk.hasActiveSession services visit).2, ?_⟩
  obtain ⟨portal, current, active, previous⟩ := desk
  cases active with
  | some slot => exact ⟨rfl, rfl⟩
  | none =>
    simp only [Desk.hasActiveSession]
    cases hfound : (portal.activeSession services visit none).1 with
    | none | some slot => exact ⟨rfl, Prod.ext hfound rfl⟩

theorem sendInactiveSessionHeaders_portal :
    desk.sendInactiveSessionHeaders.portal = desk.portal.endSession desk.active := by
  rw [Desk.sendInactiveSessionHeaders]
  cases desk.active with
  | none => rfl
  | some slot => rfl

theorem handleLogoutRoute_portal :
    (desk.handleLogoutRoute services visit).portal =
      Controllers.handleLogoutRoute services visit desk.active desk.portal := by
  obtain ⟨looked, hlooked, hfound⟩ := hasActiveSession_portal
  rw [Desk.handleLogoutRoute, sendInactiveSessionHeaders_portal, hlooked,
    Controllers.handleLogoutRoute, hfound]

theorem handleWiFiConfigRoute_portal :
    (desk.handleWiFiConfigRoute services visit).portal =
      Controllers.handleWiFiConfigRoute services visit desk.active desk.portal := by
  simp only [Desk.handleWiFiConfigRoute, Controllers.handleWiFiConfigRoute]
  split
  · exact sendInactiveSessionHeaders_portal
  · rfl

theorem handleLoginConfigRoute_portal :
    (desk.handleLoginConfigRoute services visit).portal =
      Controllers.handleLoginConfigRoute services visit desk.active desk.portal := by
  simp only [Desk.handleLoginConfigRoute, Controllers.handleLoginConfigRoute]
  split
  · split
    · exact sendInactiveSessionHeaders_portal
    · rfl
  · rfl

omit [DecidableEq τ] in
theorem handleLoginRoute_portal :
    (desk.handleLoginRoute services visit).portal =
      Controllers.handleLoginRoute services visit desk.active desk.portal := by
  obtain ⟨looked, hlooked, hfound⟩ := hasActiveSession_portal
  rw [Desk.handleLoginRoute, Controllers.handleLoginRoute, hlooked, hfound]
  cases looked.active with
  | some slot => rfl
  | none =>
    simp only [isSome_none, Desk.logIn]
    split
    · rfl
    cases isLoginBlocked visit.now looked.portal.failures with
    | mk blocked failures =>
      cases blocked with
      | true => rfl
      | false =>
        dsimp only
        split
        · generalize create _ _ _ _ _ _ _ _ = created
          obtain ⟨_ | slot, sessions⟩ := created <;> rfl
        · rfl

theorem serve_portal (route : Route) :
    (desk.serve services visit route).portal =
      route.handle services visit desk.active desk.portal := by
  cases route with
  | home =>
    obtain ⟨looked, hlooked, hfound⟩ := hasActiveSession_portal
    exact (congrArg (Desk.portal ∘ Prod.snd) hlooked).trans (congrArg Prod.snd hfound).symm
  | login => exact handleLoginRoute_portal
  | logout => exact handleLogoutRoute_portal
  | wifiConfig => exact handleWiFiConfigRoute_portal
  | loginConfig => exact handleLoginConfigRoute_portal
  | _ => rfl

omit [DecidableEq τ] in
/-- The middleware admits what it admits to the portal, with the slot it finds there. -/
theorem handleMiddleware_portal {services : Services σ} {visit : Visit} {desk : Desk σ τ}
    (hresting : desk.active = none) {level : Middlewares} :
    ∃ slot passed, desk.handleMiddleware services visit level = (slot.isSome, passed) ∧
      Controllers.handleMiddleware services visit level desk.portal = (slot, passed.portal) ∧
      ∀ active, slot = some active → passed.active = active := by
  obtain ⟨looked, hlooked, hfound⟩ := hasActiveSession_portal
  rw [hresting] at hfound
  rw [Desk.handleMiddleware.eq_def, Controllers.handleMiddleware.eq_def]
  cases level with
  | noMiddleware => exact ⟨some none, desk, rfl, rfl, fun _ hactive => by cases hactive; exact hresting⟩
  | _ =>
    dsimp only
    rw [hlooked, hfound]
    cases hslot : looked.active with
    | none => exact ⟨none, looked, rfl, rfl, nofun⟩
    | some slot =>
      dsimp only [isSome_some]
      rw [hslot, bind_some]
      split
      · next hrefused => exact ⟨none, looked, by simp [hrefused], rfl, nofun⟩
      · next hadmitted =>
          rw [decide_eq_false hadmitted]
          cases hguard : guardStateChange visit.request looked.portal.sessions[slot]? with
          | true =>
            exact ⟨some (some slot), looked, rfl, rfl, fun _ hactive => by cases hactive; exact hslot⟩
          | false => exact ⟨none, looked, rfl, rfl, nofun⟩

/-- With the pointers the portal does what it does without them. -/
theorem handleRequest_portal (hresting : desk.active = none) :
    (desk.handleRequest services visit).portal =
      Controllers.handleRequest services visit desk.portal := by
  rw [Desk.handleRequest, Controllers.handleRequest]
  cases routeOf visit.request with
  | none =>
    obtain ⟨looked, hlooked, hfound⟩ := hasActiveSession_portal
    rw [hresting] at hfound
    rw [hlooked, hfound]
    rfl
  | some route =>
    obtain ⟨slot, passed, hpassed, hadmitted, hslot⟩ := handleMiddleware_portal hresting
    dsimp only
    rw [hpassed, hadmitted]
    cases slot with
    | none => rfl
    | some slot =>
      have hserved := @serve_portal _ _ _ services visit passed route
      rw [hslot slot rfl] at hserved
      exact hserved

end Portals

/-! ## What is current during a request and after it -/

section Current

variable {services visit} {found : Option (Holder τ)} {desk : Desk σ τ}

/-- Between two requests no web session is current. -/
structure Desk.Resting (desk : Desk σ τ) : Prop where
  active : desk.active = none
  previous : desk.previous = none
  current : ∀ slot, desk.current ≠ some (.web slot)

/-- While a request is handled, either it has no session and what it found is current, or
its session is current and what it found is remembered. -/
def Serving (found : Option (Holder τ)) (desk : Desk σ τ) : Prop :=
  (desk.active = none ∧ desk.current = found) ∨
    ∃ slot, desk.active = some slot ∧ desk.current = some (.web slot) ∧ desk.previous = found

omit [DecidableEq τ] in
theorem dropCleared_of_not_web {clears : WebSession → Bool} {sessions : List WebSession}
    (hfound : ∀ slot, found ≠ some (.web slot)) : dropCleared clears sessions found = found := by
  match found, hfound with
  | none, _ => rfl
  | some (.device _), _ => rfl
  | some (.web slot), hfound => exact absurd rfl (hfound slot)

theorem Serving.release (hserving : Serving found desk) : desk.release.current = found := by
  obtain ⟨hactive, hcurrent⟩ | ⟨slot, hactive, hcurrent, hprevious⟩ := hserving
  · rw [Desk.release, hactive]
    exact hcurrent
  · simp [Desk.release, hactive, hcurrent, hprevious]

omit [DecidableEq τ] in
theorem Serving.hasActiveSession (hserving : Serving found desk)
    (hfound : ∀ slot, found ≠ some (.web slot)) :
    Serving found (desk.hasActiveSession services visit).2 := by
  obtain ⟨portal, current, active, previous⟩ := desk
  cases active with
  | some slot => exact hserving
  | none =>
    obtain ⟨-, hcurrent⟩ | ⟨slot, hactive, -⟩ := hserving
    · dsimp only at hcurrent
      have hkept : ∀ sweeps : Bool,
          (if sweeps then Desk.currentCollected services visit ⟨portal, current, none, previous⟩
            else current) = found := by
        intro sweeps
        rw [Desk.currentCollected, hcurrent, dropCleared_of_not_web hfound, ite_self]
      simp only [Desk.hasActiveSession]
      cases (portal.activeSession services visit none).1 with
      | none => exact .inl ⟨rfl, hkept _⟩
      | some slot => exact .inr ⟨slot, rfl, rfl, hkept _⟩
    · cases hactive

omit [DecidableEq τ] in
theorem Serving.logIn (hactive : desk.active = none) (hcurrent : desk.current = found)
    (hfound : ∀ slot, found ≠ some (.web slot)) :
    Serving found (desk.logIn services visit) := by
  have hcollected : desk.currentCollected services visit = found := by
    rw [Desk.currentCollected, hcurrent, dropCleared_of_not_web hfound]
  simp only [Desk.logIn, hcollected, hcurrent, ite_self]
  split
  · exact .inl ⟨hactive, hcurrent⟩
  · split
    · exact .inl ⟨hactive, rfl⟩
    · split
      · split
        · next slot sessions _ => exact .inr ⟨slot, rfl, rfl, rfl⟩
        · exact .inl ⟨hactive, rfl⟩
      · exact .inl ⟨hactive, rfl⟩

omit [DecidableEq τ] in
theorem Serving.handleLoginRoute (hserving : Serving found desk)
    (hfound : ∀ slot, found ≠ some (.web slot)) :
    Serving found (desk.handleLoginRoute services visit) := by
  have hlooked : Serving found (desk.hasActiveSession services visit).2 :=
    hserving.hasActiveSession hfound
  obtain ⟨looked, hfinds, -⟩ := hasActiveSession_portal
  rw [hfinds] at hlooked
  rw [Desk.handleLoginRoute, hfinds]
  cases hnone : looked.active with
  | some slot => exact hlooked
  | none =>
    obtain ⟨-, hcurrent⟩ | ⟨slot, hsome, -⟩ := hlooked
    · exact Serving.logIn hnone hcurrent hfound
    · cases hnone.symm.trans hsome

omit [DecidableEq τ] in
theorem Serving.handleMiddleware (hserving : Serving found desk)
    (hfound : ∀ slot, found ≠ some (.web slot)) (level : Middlewares) :
    Serving found (desk.handleMiddleware services visit level).2 := by
  have hlooked : Serving found (desk.hasActiveSession services visit).2 :=
    hserving.hasActiveSession hfound
  rw [Desk.handleMiddleware.eq_def]
  generalize desk.hasActiveSession services visit = looked at hlooked ⊢
  obtain ⟨logged, looked⟩ := looked
  cases level with
  | noMiddleware => exact hserving
  | authMiddleware | apiMiddleware | rootAuthMiddleware => cases logged <;> exact hlooked

/-- When a request ends the session that it has, nothing is current any more. -/
theorem Serving.sendInactiveSessionHeaders (hserving : Serving found desk) :
    desk.sendInactiveSessionHeaders.release.current =
      bif desk.active.isSome then none else found := by
  obtain ⟨hactive, hcurrent⟩ | ⟨slot, hactive, hcurrent, hprevious⟩ := hserving
  · simp [Desk.sendInactiveSessionHeaders, hactive, Desk.release, hcurrent, isSome_none, cond_false]
  · simp [Desk.sendInactiveSessionHeaders, hactive, Desk.destroy, Desk.release, hcurrent,
      isSome_some, cond_true]

/-- The same after the other sessions of the user have been destroyed. -/
theorem Serving.destroyByUsername (hserving : Serving found desk)
    (hfound : ∀ slot, found ≠ some (.web slot)) (username : Text) :
    (desk.destroyByUsername username).sendInactiveSessionHeaders.release.current =
      bif desk.active.isSome then none else found := by
  obtain ⟨hactive, hcurrent⟩ | ⟨slot, hactive, hcurrent, hprevious⟩ := hserving
  · simp [Desk.destroyByUsername, Desk.sendInactiveSessionHeaders, hactive, Desk.release, hcurrent,
      dropCleared_of_not_web hfound, ite_self, isSome_none, cond_false]
  · simp only [Desk.destroyByUsername, hactive, hcurrent, dropCleared]
    split
    · exact if_pos rfl
    · split
      · rfl
      · exact if_pos rfl

theorem Serving.serve (hserving : Serving found desk) (hfound : ∀ slot, found ≠ some (.web slot))
    (route : Route) :
    (desk.serve services visit route).release.current =
      bif endsSession services visit route desk.active desk.portal then none else found := by
  cases route with
  | home => exact (hserving.hasActiveSession hfound).release
  | login => exact (hserving.handleLoginRoute hfound).release
  | logout =>
    have hlooked : Serving found (desk.hasActiveSession services visit).2 :=
      hserving.hasActiveSession hfound
    obtain ⟨looked, hfinds, hsession⟩ := hasActiveSession_portal
    rw [hfinds] at hlooked
    rw [endsSession, hsession, Desk.serve, Desk.handleLogoutRoute, hfinds]
    exact hlooked.sendInactiveSessionHeaders
  | wifiConfig =>
    have hwritten : Serving found
        { desk with portal := settingsPage services visit .wifi wifiSubmitted desk.portal } :=
      hserving
    rw [Desk.serve, Desk.handleWiFiConfigRoute, endsSession]
    by_cases hsubmitted : wifiSubmitted visit.request = true
    · rw [if_pos hsubmitted, hwritten.sendInactiveSessionHeaders]
      simp [hsubmitted, Bool.and_true]
    · rw [if_neg hsubmitted, hwritten.release]
      simp [hsubmitted, Bool.and_false, cond_false]
  | loginConfig =>
    rw [Desk.serve, Desk.handleLoginConfigRoute, endsSession, changesPassword]
    by_cases hsubmitted : passwordSubmitted services visit desk.active desk.portal = true
    · rw [if_pos hsubmitted]
      simp only [hsubmitted]
      generalize updatePassword services desk.active (usernameOf desk.active desk.portal)
        (cString (arg visit.request (text "npswd"))) desk.portal = updated
      have hwritten : Serving found { desk with portal := updated.2 } := hserving
      by_cases hchanged : updated.1 = true
      · rw [if_pos hchanged, hwritten.destroyByUsername hfound]
        simp [hchanged, Bool.and_true]
      · rw [if_neg hchanged, hwritten.release]
        simp [hchanged, Bool.and_false, cond_false]
    · rw [if_neg hsubmitted, hserving.release]
      simp [hsubmitted, Bool.and_false, Bool.false_and, cond_false]
  | otaConfig | emailConfig | dashboard | dashboardMonitor | gpioManage | gpioServer | gpioMode
  | gpioWrite | gpioEvent | gpioMonitor | gpioAnalogMonitor | mqttManage | mqttGeneral | mqttLwt
  | mqttPubsub | deviceRegister | storageList | storageFileUpload | storageFileList
  | storageFileDelete => exact @Serving.release _ _ _ found _ hserving

end Current

theorem handleRequest_current {services : Services σ} {visit : Visit} {desk : Desk σ τ}
    (hresting : desk.Resting) :
    (desk.handleRequest services visit).current =
      bif endsOwnSession services visit desk.portal then none else desk.current := by
  have hserving : Serving desk.current desk := .inl ⟨hresting.active, rfl⟩
  have hlooked : Serving desk.current (desk.hasActiveSession services visit).2 :=
    hserving.hasActiveSession hresting.current
  rw [Desk.handleRequest, endsOwnSession]
  cases routeOf visit.request with
  | none => exact hlooked.release
  | some route =>
    have hpassed : Serving desk.current (desk.handleMiddleware services visit route.level).2 :=
      hserving.handleMiddleware hresting.current route.level
    obtain ⟨slot, passed, hpasses, hadmitted, hslot⟩ := handleMiddleware_portal hresting.active
    dsimp only
    rw [hpasses] at hpassed ⊢
    rw [hadmitted]
    cases slot with
    | none => exact hpassed.release
    | some slot =>
      have hserved := @Serving.serve _ _ _ services visit _ _ hpassed hresting.current route
      rw [hslot slot rfl] at hserved
      exact hserved

/-- A request leaves the session that it found current, exactly if there was none or if
the request does not end its own session. -/
theorem request_keepsCurrent_iff (services : Services σ) (visit : Visit) (desk : Desk σ τ)
    (hresting : desk.Resting) :
    (desk.handleRequest services visit).current = desk.current ↔
      desk.current = none ∨ endsOwnSession services visit desk.portal = false := by
  rw [handleRequest_current hresting]
  cases endsOwnSession services visit desk.portal with
  | true => simp [eq_comm]
  | false => simp

/-- After a request the desk is as it is between requests. -/
theorem handleRequest_resting {services : Services σ} {visit : Visit} {desk : Desk σ τ}
    (hresting : desk.Resting) : (desk.handleRequest services visit).Resting := by
  have hcurrent : ∀ slot, (desk.handleRequest services visit).current ≠ some (.web slot) := by
    intro slot
    rw [handleRequest_current hresting]
    cases endsOwnSession services visit desk.portal with
    | true => exact nofun
    | false => exact hresting.current slot
  rw [Desk.handleRequest] at hcurrent ⊢
  split at hcurrent
  · exact ⟨rfl, rfl, hcurrent⟩
  · split at hcurrent
    · exact ⟨rfl, rfl, hcurrent⟩
    · exact ⟨rfl, rfl, hcurrent⟩

end Requests

/-! ## Two requests next to a terminal -/

/-- A device without files or users. -/
def bareServices : Services Unit := servicesOn default id

/-- The portal with one web session, while the terminal session 7 is current. -/
def terminalDesk : Desk Unit ℕ where
  portal :=
    { sessions := [{ WebSession.clear with
        occupied := true, token := List.replicate 32 0x61, username := text "root" }]
      failures := clearLoginFailures
      world := ()
      changes := [] }
  current := some (.device 7)
  active := none
  previous := none

def pageVisit (uri : String) : Visit where
  request :=
    { method := text "GET"
      version := text "HTTP/1.1"
      uri := text uri
      body := []
      headers := [⟨cookieKey, some (text "session=" ++ List.replicate 32 0x61)⟩]
      queries := []
      formdata := []
      files := [] }
  now := 0
  token := []
  csrf := []

theorem terminalDesk_resting : terminalDesk.Resting := ⟨rfl, rfl, nofun⟩

theorem dashboard_keepsTerminal :
    (terminalDesk.handleRequest bareServices (pageVisit "/dashboard")).current =
      some (.device 7) :=
  (request_keepsCurrent_iff bareServices (pageVisit "/dashboard") terminalDesk
    terminalDesk_resting).mpr (.inr (by decide +kernel))

/-- After a logout in the browser the terminal's session is no longer current, and
nothing is. -/
theorem logout_losesTerminal :
    terminalDesk.current = some (.device 7) ∧
      (terminalDesk.portal.activeSession bareServices (pageVisit "/logout") none).1 = some 0 ∧
      (terminalDesk.handleRequest bareServices (pageVisit "/logout")).current = none := by
  decide +kernel

end PdiStack.CurrentSession
