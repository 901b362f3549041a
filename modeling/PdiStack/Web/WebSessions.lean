import PdiStack.Http.HttpRequest

/-!
# Web sessions

`WebSessionManager` keeps the sessions of the web portal in a table of slots, and
`EwSessionHandler` finds the session of a request by the token in its cookie.  A
session ends when it is idle for too long, when it is too old, or when it is
destroyed.  `loginState` is what a request can see of the table: who is logged in
under which token.
-/

namespace PdiStack.WebSessions

open StringOperations HttpRequest List

def webSessionTokenHexLen : ℕ := 32

/-- `WEB_SESSION_ABSOLUTE_MAX_AGE`, in seconds. -/
def webSessionAbsoluteMaxAge : UInt32 := 28800

/-- `web_session_t`.  The tokens are the characters of `m_token` and `m_csrf` without
the final zero, and times are milliseconds of the device clock. -/
structure WebSession where
  occupied : Bool
  token : Text
  csrf : Text
  username : Text
  uid : UInt16
  gid : UInt16
  loginAt : UInt32
  lastActivityAt : UInt32
  cookieIssuedAt : UInt32
deriving DecidableEq, Repr

/-- `clear`: a free slot. -/
def WebSession.clear : WebSession :=
  { occupied := false
    token := replicate webSessionTokenHexLen 0
    csrf := replicate webSessionTokenHexLen 0
    username := []
    uid := 0
    gid := 0
    loginAt := 0
    lastActivityAt := 0
    cookieIssuedAt := 0 }

variable (idleMaxAge now : UInt32) (session : WebSession)

/-- The time since a stamp, in seconds.  The clock wraps. -/
def secondsSince (stamp : UInt32) : UInt32 := (now - stamp) / 1000

def isExpired : Bool :=
  idleMaxAge < secondsSince now session.lastActivityAt ∨
    webSessionAbsoluteMaxAge < secondsSince now session.loginAt

def WebSession.live : Bool := session.occupied && !isExpired idleMaxAge now session

def collectExpired (sessions : List WebSession) : List WebSession :=
  sessions.map fun session =>
    if session.occupied && isExpired idleMaxAge now session then .clear else session

def slotOf (token : Text) (sessions : List WebSession) : Option ℕ :=
  sessions.findIdx? fun session => session.occupied && session.token = token

/-- `validate`.  The table is swept before the token is looked up. -/
def validate (token : Text) (sessions : List WebSession) : Option ℕ × List WebSession :=
  if (cString token).length ≠ webSessionTokenHexLen then
    (none, sessions)
  else
    let swept := collectExpired idleMaxAge now sessions
    match slotOf (cString token) swept with
    | none => (none, swept)
    | some slot =>
      (some slot, swept.modify slot fun session => { session with lastActivityAt := now })

def needsCookieRefresh : Bool := idleMaxAge / 2 < secondsSince now session.cookieIssuedAt

def markCookieIssued : WebSession :=
  { session with cookieIssuedAt := now }

def destroy (slot : ℕ) (sessions : List WebSession) : List WebSession :=
  sessions.modify slot fun _ => .clear

def destroyByUsername (username : Text) (sessions : List WebSession) : List WebSession :=
  if username = [] then sessions
  else sessions.map fun session =>
    if session.occupied && session.username = username then .clear else session

/-- The slot that a new session takes when none is free: the first of those idle for
the longest time. -/
def oldestSlot (sessions : List WebSession) : Option ℕ :=
  let ages := sessions.map fun session => (now - session.lastActivityAt).toNat
  ages.max?.bind fun oldest => ages.findIdx? (· = oldest)

def create (token csrf username : Text) (uid gid : UInt16)
    (sessions : List WebSession) : Option ℕ × List WebSession :=
  if username = [] then
    (none, sessions)
  else
    let swept := collectExpired idleMaxAge now sessions
    match (swept.findIdx? (!·.occupied)).or (oldestSlot now swept) with
    | none => (none, swept)
    | some slot =>
      (some slot, swept.modify slot fun _ =>
        { occupied := true
          token := token
          csrf := csrf
          username := username
          uid := uid
          gid := gid
          loginAt := now
          lastActivityAt := now
          cookieIssuedAt := now })

/-- The failed logins of `WebSessionManager`. -/
structure LoginFailures where
  loginFailures : ℕ
  lockoutStartedAt : UInt32
deriving DecidableEq, Repr

def webLoginMaxAttempts : ℕ := 5

/-- `WEB_LOGIN_LOCKOUT_DURATION`, in seconds. -/
def webLoginLockoutDuration : UInt32 := 300

def registerLoginFailure (failures : LoginFailures) : LoginFailures :=
  let attempts := min (failures.loginFailures + 1) webLoginMaxAttempts
  { loginFailures := attempts
    lockoutStartedAt := if webLoginMaxAttempts ≤ attempts then now else failures.lockoutStartedAt }

def clearLoginFailures : LoginFailures := ⟨0, 0⟩

/-- `isLoginBlocked`, which forgets the failures when the lockout is over. -/
def isLoginBlocked (failures : LoginFailures) : Bool × LoginFailures :=
  if failures.loginFailures < webLoginMaxAttempts then
    (false, failures)
  else if webLoginLockoutDuration < secondsSince now failures.lockoutStartedAt then
    (false, clearLoginFailures)
  else
    (true, failures)

/-- One round of the loop in `extract_cookie_value`, on the rest of the header. -/
def cookiePass (name rest : Text) : Loop.Pass Text (Option Text) :=
  if rest = [] then
    .done none
  else
    let trimmed := rest.dropWhile fun char => char = 0x20 ∨ char = 0x3B
    let key := trimmed.takeWhile fun char => char ≠ 0x3D ∧ char ≠ 0x3B
    match trimmed.drop key.length with
    | 0x3D :: more =>
      let value := more.takeWhile (· ≠ 0x3B)
      if key = name then .done (some value) else .again (more.drop value.length)
    | _ => .done none

theorem cookiePass_variant {name : Text} : Loop.Variant (cookiePass name) length := by
  intro rest next hpass
  dsimp only [cookiePass] at hpass
  split at hpass
  · cases hpass
  split at hpass
  case h_1 more hmore =>
    split at hpass
    · cases hpass
    · cases hpass
      have hlength := congrArg length hmore
      have htrimmed := (dropWhile_sublist (l := rest)
        fun char => decide (char = 0x20 ∨ char = 0x3B)).length_le
      rw [length_drop, length_cons] at hlength
      rw [length_drop]
      omega
  case h_2 => cases hpass

def extractCookieValue (cookie name : Text) : Option Text :=
  Loop.run (cookiePass name) _ (cookiePass_variant) cookie

def cookieKey : Text := text "Cookie"

/-- `has_active_session` on a request that has no session yet. -/
def hasActiveSession (sessionName : Text) (idleMaxAge now : UInt32) (request : HttpRequestData)
    (sessions : List WebSession) : Option ℕ × List WebSession :=
  if header request cookieKey = [] then
    (none, sessions)
  else
    match extractCookieValue (header request cookieKey) sessionName with
    | none => (none, sessions)
    | some token =>
      match validate idleMaxAge now token sessions with
      | (none, sessions) => (none, sessions)
      | (some slot, sessions) =>
        (some slot, sessions.modify slot fun session =>
          if needsCookieRefresh idleMaxAge now session then markCookieIssued now session
          else session)

def hasValidCsrfToken (request : HttpRequestData) : Bool :=
  hasArg request (text "csrf") && (arg request (text "csrf")).length = webSessionTokenHexLen &&
    arg request (text "csrf") = session.csrf

/-- What a slot says about a login: nothing if it is free or has expired, and no
stamps that every request renews. -/
def WebSession.login : Option WebSession :=
  if session.live idleMaxAge now then some { session with lastActivityAt := 0, cookieIssuedAt := 0 }
  else none

def loginState (sessions : List WebSession) : List (Option WebSession) :=
  sessions.map (·.login idleMaxAge now)

section LoginState

variable {idleMaxAge now : UInt32} {sessions : List WebSession}

theorem login_clear (idleMaxAge now : UInt32) : WebSession.clear.login idleMaxAge now = none := rfl

/-- A change of one slot that keeps its login keeps the login state. -/
theorem loginState_modify {slot : ℕ} {change : WebSession → WebSession}
    (hkept : ∀ session, sessions[slot]? = some session →
      (change session).login idleMaxAge now = session.login idleMaxAge now) :
    loginState idleMaxAge now (sessions.modify slot change) = loginState idleMaxAge now sessions := by
  apply ext_getElem?
  intro index
  rw [loginState, loginState, getElem?_map, getElem?_map, getElem?_modify]
  by_cases hslot : slot = index
  · subst hslot
    cases hsession : sessions[slot]? with
    | none => rfl
    | some session => exact congrArg some ((congrArg _ (if_pos rfl)).trans (hkept session hsession))
  · simp [hslot]

theorem loginState_collectExpired :
    loginState idleMaxAge now (collectExpired idleMaxAge now sessions) =
      loginState idleMaxAge now sessions := by
  rw [loginState, collectExpired, map_map]
  apply map_congr_left
  intro session _
  rw [Function.comp_apply]
  split
  case isTrue hexpired =>
    rw [Bool.and_eq_true] at hexpired
    rw [login_clear, WebSession.login, WebSession.live, hexpired.1, hexpired.2]
    rfl
  case isFalse => rfl

theorem secondsSince_self (now : UInt32) : secondsSince now now = 0 := by
  rw [secondsSince, UInt32.sub_self]
  rfl

theorem login_stamp {session : WebSession} (hlive : session.live idleMaxAge now = true) :
    WebSession.login idleMaxAge now { session with lastActivityAt := now } =
      session.login idleMaxAge now := by
  have hstamped : WebSession.live idleMaxAge now { session with lastActivityAt := now } = true := by
    rw [WebSession.live, Bool.and_eq_true, Bool.not_eq_true', isExpired, decide_eq_false_iff_not,
      not_or] at hlive ⊢
    refine ⟨hlive.1, ?_, hlive.2.2⟩
    rw [secondsSince_self]
    exact UInt32.not_lt_zero
  rw [WebSession.login, WebSession.login, if_pos hstamped, if_pos hlive]

theorem login_refresh :
    (if needsCookieRefresh idleMaxAge now session then markCookieIssued now session
      else session).login idleMaxAge now = session.login idleMaxAge now := by
  split
  · rfl
  · rfl

/-- The slot that is found is in use and has the token, and after a sweep it has not
expired. -/
theorem live_of_slotOf {token : Text} {slot : ℕ}
    (hslot : slotOf token (collectExpired idleMaxAge now sessions) = some slot) :
    ∃ session, (collectExpired idleMaxAge now sessions)[slot]? = some session ∧
      session.live idleMaxAge now = true := by
  rw [slotOf, findIdx?_eq_some_iff_getElem] at hslot
  obtain ⟨hlength, hfound, -⟩ := hslot
  refine ⟨_, getElem?_eq_getElem hlength, ?_⟩
  rw [Bool.and_eq_true] at hfound
  have hoccupied := hfound.1
  simp only [collectExpired, getElem_map] at hoccupied ⊢
  split at hoccupied
  · cases hoccupied
  case isFalse hkept =>
    rw [if_neg hkept, WebSession.live, hoccupied, Bool.true_and, Bool.not_eq_true']
    rw [hoccupied, Bool.not_eq_true] at hkept
    exact hkept

theorem live_of_login {session other : WebSession}
    (hsame : session.login idleMaxAge now = other.login idleMaxAge now)
    (hlive : other.live idleMaxAge now = true) : session.live idleMaxAge now = true := by
  rw [WebSession.login, WebSession.login] at hsame
  split at hsame
  case isTrue hthis => exact hthis
  case isFalse => cases hsame

/-- A lookup that keeps the login state and finds no slot but a live one. -/
structure FindsLive (idleMaxAge now : UInt32) (sessions : List WebSession)
    (result : Option ℕ × List WebSession) : Prop where
  login_eq : loginState idleMaxAge now result.2 = loginState idleMaxAge now sessions
  live : ∀ slot, result.1 = some slot →
    ∃ session, result.2[slot]? = some session ∧ session.live idleMaxAge now = true

/-- The slot that is found may be changed if its login stays. -/
theorem findsLive_modify {kept : List WebSession} {slot : ℕ} {session : WebSession}
    {change : WebSession → WebSession}
    (hkept : loginState idleMaxAge now kept = loginState idleMaxAge now sessions)
    (hsession : kept[slot]? = some session) (hlive : session.live idleMaxAge now = true)
    (hchange : (change session).login idleMaxAge now = session.login idleMaxAge now) :
    FindsLive idleMaxAge now sessions (some slot, kept.modify slot change) := by
  refine ⟨(loginState_modify fun other hother => ?_).trans hkept, ?_⟩
  · rw [hsession] at hother
    cases hother
    exact hchange
  · intro found hfound
    cases hfound
    exact ⟨_, by rw [getElem?_modify_eq, hsession]; rfl, live_of_login hchange hlive⟩

theorem validate_spec (token : Text) :
    FindsLive idleMaxAge now sessions (validate idleMaxAge now token sessions) := by
  dsimp only [validate]
  split
  · exact ⟨rfl, nofun⟩
  split
  · exact ⟨loginState_collectExpired, nofun⟩
  case h_2 slot hslot =>
    obtain ⟨session, hsession, hlive⟩ := live_of_slotOf hslot
    exact findsLive_modify loginState_collectExpired hsession hlive (login_stamp hlive)

theorem hasActiveSession_spec (sessionName : Text) (request : HttpRequestData) :
    FindsLive idleMaxAge now sessions
      (hasActiveSession sessionName idleMaxAge now request sessions) := by
  unfold hasActiveSession
  split
  · exact ⟨rfl, nofun⟩
  split
  · exact ⟨rfl, nofun⟩
  case h_2 token _ =>
    have hvalid : FindsLive idleMaxAge now sessions _ := validate_spec token
    split
    case h_1 kept hkept =>
      rw [hkept] at hvalid
      exact ⟨hvalid.login_eq, nofun⟩
    case h_2 slot kept hkept =>
      rw [hkept] at hvalid
      obtain ⟨session, hsession, hlive⟩ := hvalid.live slot rfl
      exact findsLive_modify hvalid.login_eq hsession hlive (login_refresh session)

end LoginState

end PdiStack.WebSessions
