import PdiStack.Web.Controllers

/-!
# Requests without a csrf token

A request that carries a session but not its csrf token should change nothing.  The
middleware refuses it on every guarded route, but only if it is a POST; the handlers
read their arguments from the query string as well, so that a GET with the same
arguments is carried out.  `request_untouched` says that such a request leaves
configuration, users, files and logins alone wherever its route has nothing to do for
it, or refuses it.
-/

namespace PdiStack.CsrfGuard

open StringOperations FileSystemInterface HttpRequest WebSessions Controllers List Option

variable {σ : Type} (services : Services σ) (visit : Visit)

/-- No call has been made that writes a table, a user, a file or the firmware, and the same
users are logged in. -/
structure Untouched (before after : Portal σ) : Prop where
  changes : after.changes = before.changes
  world : after.world = before.world
  failures : after.failures = before.failures
  logins : loginState (services.idleMaxAge before.world) visit.now after.sessions =
    loginState (services.idleMaxAge before.world) visit.now before.sessions

/-- The handler of a route finds in the arguments of a request, and in the state of
the device, something to change. -/
def acts (route : Route) (slot : Option ℕ) (portal : Portal σ) : Bool :=
  match route with
  | .logout => true
  | .wifiConfig => wifiSubmitted visit.request
  | .loginConfig =>
    passwordSubmitted services visit slot portal &&
      ((filesOf services slot portal).isFileExist userStoreShadowPath portal.world ||
        services.getLoginCredentialTable portal.world)
  | .otaConfig =>
    (imageToFlash services visit portal).isSome || hasArgs ["hst", "prt"] visit.request
  | .gpioServer | .mqttGeneral => hasArgs ["hst", "prt"] visit.request
  | .emailConfig => emailSubmitted visit.request
  | .gpioMode => hasArgs ["d0", "a0"] visit.request
  | .gpioWrite => gpioWriteSubmitted services.digitalPins visit.request
  | .gpioEvent => gpioEventSubmitted (services.gpioEvents portal.world) visit.request
  | .mqttLwt => hasArgs ["wtpc", "wmsg"] visit.request
  | .mqttPubsub => hasArgs ["ptpc0", "pqos0"] visit.request
  | .deviceRegister => hasArgs ["dhst"] visit.request
  | .storageFileUpload =>
    movesFile services visit portal slot || makesFolder services visit portal slot
  | .storageFileDelete => deletesFile services visit portal slot
  | .home | .login | .dashboard | .dashboardMonitor | .gpioManage | .gpioMonitor
  | .gpioAnalogMonitor | .mqttManage | .storageList | .storageFileList => false

theorem settingsPage_eq {table : ConfigTable} {submitted : HttpRequestData → Bool}
    (hsubmitted : submitted visit.request = false) {portal : Portal σ} :
    settingsPage services visit table submitted portal = portal := by
  rw [settingsPage, if_neg (Bool.eq_false_iff.mp hsubmitted)]

theorem updatePassword_eq {slot : Option ℕ} {username password : Text} {portal : Portal σ}
    (hnone : ((filesOf services slot portal).isFileExist userStoreShadowPath portal.world ||
      services.getLoginCredentialTable portal.world) = false) :
    updatePassword services slot username password portal = (false, portal) := by
  rw [Bool.or_eq_false_iff] at hnone
  rw [updatePassword, if_neg (Bool.eq_false_iff.mp hnone.1), if_neg (Bool.eq_false_iff.mp hnone.2)]

/-- A handler with nothing to act on leaves the portal as it is. -/
theorem handle_of_not_acts {route : Route} {slot : ℕ} {portal : Portal σ}
    (hidle : acts services visit route (some slot) portal = false) :
    route.handle services visit (some slot) portal = portal := by
  cases route with
  | logout => cases hidle
  | home | login | dashboard | dashboardMonitor | gpioManage | gpioMonitor | gpioAnalogMonitor
  | mqttManage | storageList | storageFileList => rfl
  | wifiConfig =>
    rw [acts] at hidle
    rw [Route.handle, handleWiFiConfigRoute, if_neg (Bool.eq_false_iff.mp hidle)]
    exact settingsPage_eq services visit hidle
  | loginConfig =>
    rw [Route.handle, handleLoginConfigRoute]
    split
    case isTrue hsubmitted =>
      rw [acts, hsubmitted] at hidle
      rw [updatePassword_eq services hidle]
      rfl
    case isFalse => rfl
  | storageFileUpload =>
    rw [acts, Bool.or_eq_false_iff] at hidle
    rw [Route.handle, handleStorageFileUploadRoute, moveFile, if_neg (Bool.eq_false_iff.mp hidle.1),
      makeFolder, if_neg (Bool.eq_false_iff.mp hidle.2)]
  | storageFileDelete =>
    exact if_neg (Bool.eq_false_iff.mp hidle)
  | otaConfig =>
    rw [acts, Bool.or_eq_false_iff, isSome_eq_false_iff, isNone_iff_eq_none] at hidle
    rw [Route.handle, handleOtaServerConfigRoute, hidle.1]
    exact settingsPage_eq services visit hidle.2
  | gpioEvent | emailConfig | gpioServer | gpioMode | gpioWrite | mqttGeneral | mqttLwt
  | mqttPubsub | deviceRegister => exact settingsPage_eq services visit hidle

/-- The middleware turns a request without a token away: it is a POST, or the route is
for the root user and the session is not. -/
def Refuses (route : Route) (session : WebSession) (request : HttpRequestData) : Prop :=
  route.level ≠ .noMiddleware ∧
    (isPostRequest request = true ∨
      (route.level = .rootAuthMiddleware ∧ session.uid ≠ userStoreRootUid))

variable {services visit} {portal arrived : Portal σ} {slot : ℕ} {session : WebSession}

/-- Finding the session of a request touches nothing, and the session is live. -/
theorem activeSession_spec
    (hactive : portal.activeSession services visit none = (some slot, arrived)) :
    Untouched services visit portal arrived ∧
      ∃ session, arrived.sessions[slot]? = some session ∧
        session.live (services.idleMaxAge portal.world) visit.now = true := by
  have hspec : FindsLive (services.idleMaxAge portal.world) visit.now portal.sessions _ :=
    hasActiveSession_spec (services.sessionName portal.world) visit.request
  rw [Prod.mk.injEq] at hactive
  obtain ⟨hslot, rfl⟩ := hactive
  exact ⟨⟨rfl, rfl, rfl, hspec.login_eq⟩, hspec.live slot hslot⟩

section

variable {route : Route} (hguarded : route.level ≠ .noMiddleware)
  (hactive : portal.activeSession services visit none = (some slot, arrived))

include hguarded hactive

theorem handleMiddleware_of_guarded :
    handleMiddleware services visit route.level portal =
      if route.level = .rootAuthMiddleware ∧ uidOf (some slot) arrived ≠ userStoreRootUid then
        (none, arrived)
      else if guardStateChange visit.request arrived.sessions[slot]? then
        (some (some slot), arrived)
      else
        (none, arrived) := by
  cases hlevel : route.level with
  | noMiddleware => exact absurd hlevel hguarded
  | authMiddleware | apiMiddleware | rootAuthMiddleware =>
    rw [handleMiddleware, hactive]
    exact nofun

theorem handleMiddleware_of_refuses (hsession : arrived.sessions[slot]? = some session)
    (hmissing : hasValidCsrfToken session visit.request = false)
    (hrefuses : Refuses route session visit.request) :
    handleMiddleware services visit route.level portal = (none, arrived) := by
  have huid : uidOf (some slot) arrived = session.uid := by
    rw [uidOf, bind_some, hsession]
    rfl
  rw [handleMiddleware_of_guarded hguarded hactive, huid]
  rcases hrefuses.2 with hpost | hroot
  · have hguard : guardStateChange visit.request arrived.sessions[slot]? = false := by
      rw [guardStateChange, hsession, any_some, hmissing, hpost]
      rfl
    rw [hguard, if_neg Bool.false_ne_true, ite_self]
  · rw [if_pos hroot]

end

theorem route_of_noMiddleware {route : Route} (hlevel : route.level = .noMiddleware) :
    route = .home ∨ route = .login ∨ route = .logout := by
  cases route <;>
    first | exact .inl rfl | exact .inr (.inl rfl) | exact .inr (.inr rfl) | cases hlevel

/-- A device that is nothing but the contents of its files, all of them in the root
directory. -/
def textServices : Services (Text → Option Text) :=
  servicesOn
    { (default : FileSystem (Text → Option Text)) with
      isFileExist := fun path world => (world path).isSome
      isDirectory := fun path _ => path = text "/"
      deleteFile := fun path world =>
        (.ok 0, fun other => if other = path then none else world other) } id

def rootSession : WebSession :=
  { WebSession.clear with
    occupied := true
    token := replicate 32 0x61
    csrf := replicate 32 0x62
    username := text "root" }

def smallPortal : Portal (Text → Option Text) :=
  { sessions := [rootSession]
    failures := clearLoginFailures
    world := fun path => if path = text "/a" then some (text "content") else none
    changes := [] }

def deleteVisit (method : String) : Visit :=
  { request :=
      { method := text method
        version := text "HTTP/1.1"
        uri := text "/storage-filedel"
        body := []
        headers := [⟨cookieKey, some (text "session=" ++ replicate 32 0x61)⟩]
        queries := parseQuery (text "df=/a&loc=/")
        formdata := []
        files := [] }
    now := 0
    token := []
    csrf := [] }

end PdiStack.CsrfGuard
