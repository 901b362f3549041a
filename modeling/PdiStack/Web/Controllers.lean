import PdiStack.Storage.FileSystemInterface
import PdiStack.Web.WebSessions

/-!
# The web portal

The routes of the portal with the middleware in front of them.  `handleMiddleware`
checks the session of a request and, on a POST, its csrf token; `register_route`
runs the handler of a route when the check passes.  The handlers below are those of
the controllers as far as they change something: every call that writes a
configuration table, a user, a file or the session table goes through
`Portal.change` or shows in `sessions`.
-/

namespace PdiStack.Controllers

open StringOperations FileSystemInterface HttpRequest WebSessions

inductive ConfigTable where
  | loginCredential
  | wifi
  | ota
  | email
  | mqttGeneral
  | mqttLwt
  | mqttPubsub
  | gpio
  | deviceIot
deriving DecidableEq, Repr

inductive Change where
  | setConfigTable (table : ConfigTable)
  | setPassword (username password : Text)
  | rename (oldPath newPath : Text)
  | setFileOwner (path : Text) (uid gid : UInt16)
  | createDirectory (path : Text)
  | deleteDirectory (path : Text)
  | deleteFile (path : Text)
  | flashFromFile (path : Text)
  | restartDevice
deriving DecidableEq, Repr

/-- What the event page reads of the gpio service. -/
structure GpioEvents where
  adds : Text → Bool
  slots : List (Option Bool)

/-- The services behind the controllers, over the state of the device.  The dispatcher asks
for the user of the current session, unless it is in privileged mode. -/
structure Services (σ : Type) where
  fs : Caller → FileSystem σ
  privilegedFs : FileSystem σ
  basename : Text → Text
  appendFileSeparator : Text → Text
  replace : Text → Text → Text → Text
  isAuthorized : Text → Text → σ → Bool
  findUserByName : Text → σ → Option (UInt16 × UInt16)
  setPassword : Text → Text → σ → Bool × σ
  sessionName : σ → Text
  idleMaxAge : σ → UInt32
  getLoginCredentialTable : σ → Bool
  setLoginPassword : Text → σ → σ
  setConfigTable : ConfigTable → HttpRequestData → σ → σ
  digitalPins : ℕ
  gpioEvents : σ → GpioEvents
  getHomeDirectory : σ → Text
  collectLocalImages : Text → σ → List Text
  flashFromFile : Text → σ → Bool × σ

/-- The state that a request is handled in.  `changes` records the writing calls. -/
structure Portal (σ : Type) where
  sessions : List WebSession
  failures : LoginFailures
  world : σ
  changes : List Change

/-- A request at the time it is handled, with the random tokens of a session that it
may create. -/
structure Visit where
  request : HttpRequestData
  now : UInt32
  token : Text
  csrf : Text

section Handlers

variable {σ : Type} (services : Services σ) (visit : Visit)

def Portal.change (what : Change) (world : σ) (portal : Portal σ) : Portal σ :=
  { portal with world := world, changes := portal.changes ++ [what] }

def Portal.activeSession (slot : Option ℕ) (portal : Portal σ) : Option ℕ × Portal σ :=
  match slot with
  | some slot => (some slot, portal)
  | none =>
    let found := hasActiveSession (services.sessionName portal.world)
      (services.idleMaxAge portal.world) visit.now visit.request portal.sessions
    (found.1, { portal with sessions := found.2 })

/-- `send_inactive_session_headers`. -/
def Portal.endSession (slot : Option ℕ) (portal : Portal σ) : Portal σ :=
  match slot with
  | some slot => { portal with sessions := destroy slot portal.sessions }
  | none => portal

/-- A settings page: it writes its table when its arguments have been submitted and
are accepted. -/
def settingsPage (table : ConfigTable) (submitted : HttpRequestData → Bool) (portal : Portal σ) :
    Portal σ :=
  if submitted visit.request then
    portal.change (.setConfigTable table)
      (services.setConfigTable table visit.request portal.world)
  else
    portal

def hasArgs (names : List String) (request : HttpRequestData) : Bool :=
  names.all fun name => hasArg request (text name)

def argWithin (name : String) (limit : ℕ) (request : HttpRequestData) : Bool :=
  (arg request (text name)).length ≤ limit

def minAcceptedArgSize : ℕ := 3

def wifiConfigsBufSize : ℕ := 30

variable (portal : Portal σ) (request : HttpRequestData)

def wifiSubmitted : Bool :=
  hasArgs ["sta_ssid", "sta_pswd"] request &&
    argWithin "sta_ssid" wifiConfigsBufSize request &&
    argWithin "sta_pswd" wifiConfigsBufSize request &&
    argWithin "ap_ssid" wifiConfigsBufSize request &&
    argWithin "ap_pswd" wifiConfigsBufSize request &&
    !argWithin "sta_ssid" minAcceptedArgSize request &&
    !argWithin "ap_ssid" minAcceptedArgSize request

/-- `handleWiFiConfigRoute`, which logs the client out after a change. -/
def handleWiFiConfigRoute (slot : Option ℕ) (portal : Portal σ) : Portal σ :=
  let portal' := settingsPage services visit .wifi wifiSubmitted portal
  if wifiSubmitted visit.request then portal'.endSession slot else portal'

/-- `resolveLocalImage`: the number of an image that is on storage. -/
def resolveLocalImage (image : Text) (world : σ) : Option Text :=
  let home := services.getHomeDirectory world
  if image ≠ [] ∧ image.all fun digit => 0x30 ≤ digit ∧ digit ≤ 0x39 then
    (services.collectLocalImages home world)[(stringToUint32 image).toNat]?.map
      (services.appendFileSeparator home ++ ·)
  else
    none

def imageToFlash : Option Text :=
  if hasArg visit.request (text "img") then
    resolveLocalImage services (arg visit.request (text "img")) portal.world
  else
    none

/-- `handleOtaServerConfigRoute`, which restarts the device after it has flashed an image. -/
def handleOtaServerConfigRoute : Portal σ :=
  match imageToFlash services visit portal with
  | none => settingsPage services visit .ota (hasArgs ["hst", "prt"]) portal
  | some path =>
    let flashed := services.flashFromFile path portal.world
    let portal := settingsPage services visit .ota (hasArgs ["hst", "prt"])
      (portal.change (.flashFromFile path) flashed.2)
    if flashed.1 then portal.change .restartDevice portal.world else portal

def emailSubmitted : Bool :=
  hasArgs ["ml_dmn", "ml_srvr"] request &&
    argWithin "ml_dmn" 50 request && argWithin "ml_srvr" 50 request &&
    argWithin "ml_usr" 100 request && argWithin "ml_psw" 50 request &&
    argWithin "ml_frm" 50 request && argWithin "ml_frnm" 50 request &&
    argWithin "ml_to" 50 request && argWithin "ml_sub" 50 request

def handleEmailConfigRoute : Portal σ → Portal σ :=
  settingsPage services visit .email emailSubmitted

def handleMqttGeneralConfigRoute : Portal σ → Portal σ :=
  settingsPage services visit .mqttGeneral (hasArgs ["hst", "prt"])

def handleMqttLWTConfigRoute : Portal σ → Portal σ :=
  settingsPage services visit .mqttLwt (hasArgs ["wtpc", "wmsg"])

def handleMqttPubSubConfigRoute : Portal σ → Portal σ :=
  settingsPage services visit .mqttPubsub (hasArgs ["ptpc0", "pqos0"])

def handleGpioServerConfigRoute : Portal σ → Portal σ :=
  settingsPage services visit .gpio (hasArgs ["hst", "prt"])

def handleGpioModeConfigRoute : Portal σ → Portal σ :=
  settingsPage services visit .gpio (hasArgs ["d0", "a0"])

def filled (name : String) (number : ℕ) (request : HttpRequestData) : Bool :=
  arg request (text (name ++ toString number)) ≠ []

def gpioWriteSubmitted (digitalPins : ℕ) (request : HttpRequestData) : Bool :=
  (List.range digitalPins).any fun pin => filled "d" pin request

def handleGpioWriteConfigRoute : Portal σ → Portal σ :=
  settingsPage services visit .gpio (gpioWriteSubmitted services.digitalPins)

def eventSubmitted (slot : Option Bool × ℕ) : Bool :=
  match slot.1 with
  | none => false
  | some true => filled "d" slot.2 request && filled "al" slot.2 request
  | some false =>
    filled "a" slot.2 request && filled "aval" slot.2 request && filled "anlt" slot.2 request

def gpioEventSubmitted (events : GpioEvents) (request : HttpRequestData) : Bool :=
  (hasArg request (text "ifsl") && events.adds (arg request (text "ifsl"))) ||
    events.slots.zipIdx.any (eventSubmitted request)

def handleGpioEventConfigRoute : Portal σ :=
  settingsPage services visit .gpio (gpioEventSubmitted (services.gpioEvents portal.world)) portal

def handleDeviceRegisterConfigRoute : Portal σ → Portal σ :=
  settingsPage services visit .deviceIot (hasArgs ["dhst"])

def loginConfigsBufSize : ℕ := 25

def userStoreShadowPath : Text := text "/etc/shadow"

def uidOf (slot : Option ℕ) (portal : Portal σ) : UInt16 :=
  ((slot.bind fun slot => portal.sessions[slot]?).map (·.uid)).getD 0

def gidOf (slot : Option ℕ) (portal : Portal σ) : UInt16 :=
  ((slot.bind fun slot => portal.sessions[slot]?).map (·.gid)).getD 0

/-- The file system as the session of the request gets it. -/
def filesOf (slot : Option ℕ) (portal : Portal σ) : FileSystem σ :=
  services.fs { uid := uidOf slot portal, gid := gidOf slot portal, umask := fileUmaskDefault }

/-- `updatePassword`: into the user store if there is one, and into the table of the
database otherwise. -/
def updatePassword (slot : Option ℕ) (username password : Text) (portal : Portal σ) :
    Bool × Portal σ :=
  if (filesOf services slot portal).isFileExist userStoreShadowPath portal.world then
    let set := services.setPassword username password portal.world
    (set.1, portal.change (.setPassword username password) set.2)
  else if services.getLoginCredentialTable portal.world then
    (true, portal.change (.setConfigTable .loginCredential)
      (services.setLoginPassword (password.take (loginConfigsBufSize - 1)) portal.world))
  else
    (false, portal)

def usernameOf (slot : Option ℕ) (portal : Portal σ) : Text :=
  ((slot.bind fun slot => portal.sessions[slot]?).map (·.username)).getD []

/-- The form of the password page is complete and accepted. -/
def passwordSubmitted (slot : Option ℕ) (portal : Portal σ) : Bool :=
  let new := arg visit.request (text "npswd")
  hasArgs ["cpswd", "npswd", "rpswd"] visit.request &&
    !(loginConfigsBufSize ≤ new.length || new.length ≤ minAcceptedArgSize) &&
    new = arg visit.request (text "rpswd") &&
    services.isAuthorized (usernameOf slot portal) (cString (arg visit.request (text "cpswd")))
      portal.world

/-- `handleLoginConfigRoute`, which ends every session of the user after a change. -/
def handleLoginConfigRoute (slot : Option ℕ) (portal : Portal σ) : Portal σ :=
  if passwordSubmitted services visit slot portal then
    let updated := updatePassword services slot (usernameOf slot portal)
      (cString (arg visit.request (text "npswd"))) portal
    if updated.1 then
      { updated.2 with
        sessions := destroyByUsername (usernameOf slot portal) updated.2.sessions }.endSession slot
    else
      updated.2
  else
    portal

def handleLogoutRoute (slot : Option ℕ) (portal : Portal σ) : Portal σ :=
  let found := portal.activeSession services visit slot
  found.2.endSession found.1

def handleLoginRoute (slot : Option ℕ) (portal : Portal σ) : Portal σ :=
  match portal.activeSession services visit slot with
  | (some _, portal) => portal
  | (none, portal) =>
    if !hasArgs ["username", "password"] visit.request then
      portal
    else
      match isLoginBlocked visit.now portal.failures with
      | (true, failures) => { portal with failures := failures }
      | (false, failures) =>
        let username := cString (arg visit.request (text "username"))
        if services.isAuthorized username (cString (arg visit.request (text "password")))
            portal.world then
          let ids := (services.findUserByName username portal.world).getD (0, 0)
          match create (services.idleMaxAge portal.world) visit.now visit.token visit.csrf
              username ids.1 ids.2 portal.sessions with
          | (some _, sessions) =>
            { portal with sessions := sessions, failures := clearLoginFailures }
          | (none, sessions) => { portal with sessions := sessions, failures := failures }
        else
          { portal with failures := registerLoginFailure visit.now failures }

/-- The directory that the `loc` argument names: without the route and the name of
the query argument, and ended by a separator. -/
def locatedDirectory : Text :=
  let loc := arg request (text "loc")
  if loc = [] then []
  else services.appendFileSeparator
    (services.replace (services.replace loc (text "/storage") []) (text "?cp=") [])

def freePath (fs : FileSystem σ) (directory name : Text) (world : σ) : ℕ → ℕ → Text → Text
  | 0, _, path => path
  | tries + 1, number, path =>
    if fs.isFileExist path world then
      freePath fs directory name world tries (number + 1)
        (directory ++ text ("(" ++ toString number ++ ")") ++ name)
    else
      path

def isPdiOk : Reply → Bool
  | .ok 0 => true
  | _ => false

variable (slot : Option ℕ)

def movesFile : Bool :=
  let fs := filesOf services slot portal
  let directory := locatedDirectory services visit.request
  hasArg visit.request (text "nf") && directory ≠ [] && fs.isDirectory directory portal.world &&
    fs.isFileExist (arg visit.request (text "nf")) portal.world

/-- The upload route moves the file and hands it over to the user, in privileged mode. -/
def moveFile : Portal σ :=
  if movesFile services visit portal slot then
    let fs := filesOf services slot portal
    let nf := arg visit.request (text "nf")
    let directory := locatedDirectory services visit.request
    let name := services.basename nf
    let newPath := freePath fs directory name portal.world 999 1 (directory ++ name)
    let moved := fs.rename nf newPath portal.world
    let portal := portal.change (.rename nf newPath) moved.2
    if isPdiOk moved.1 then
      portal.change (.setFileOwner newPath (uidOf slot portal) (gidOf slot portal))
        (services.privilegedFs.setFileOwner newPath (uidOf slot portal) (gidOf slot portal)
          portal.world).2
    else
      portal
  else
    portal

def newFolderPath : Text :=
  locatedDirectory services visit.request ++
    (arg visit.request (text "nd")).take fileNameMaxSize

def makesFolder : Bool :=
  let fs := filesOf services slot portal
  let directory := locatedDirectory services visit.request
  hasArg visit.request (text "nd") && directory ≠ [] && fs.isDirectory directory portal.world &&
    arg visit.request (text "nd") ≠ [] &&
    !fs.isDirExist (newFolderPath services visit) portal.world

def makeFolder : Portal σ :=
  if makesFolder services visit portal slot then
    portal.change (.createDirectory (newFolderPath services visit))
      ((filesOf services slot portal).createDirectory (newFolderPath services visit)
        portal.world).2
  else
    portal

def handleStorageFileUploadRoute : Portal σ :=
  makeFolder services visit (moveFile services visit portal slot) slot

def deletesFile : Bool :=
  let fs := filesOf services slot portal
  let df := arg visit.request (text "df")
  let directory := locatedDirectory services visit.request
  df ≠ [] && directory ≠ [] && fs.isDirectory directory portal.world &&
    (fs.isFileExist df portal.world || fs.isDirExist df portal.world)

def handleStorageFileDeleteRoute : Portal σ :=
  let fs := filesOf services slot portal
  let df := arg visit.request (text "df")
  if deletesFile services visit portal slot then
    if fs.isDirectory df portal.world then
      portal.change (.deleteDirectory df) (fs.deleteDirectory df portal.world).2
    else
      portal.change (.deleteFile df) (fs.deleteFile df portal.world).2
  else
    portal

end Handlers

inductive Middlewares where
  | authMiddleware
  | apiMiddleware
  | rootAuthMiddleware
  | noMiddleware
deriving DecidableEq, Repr

/-- The registered routes. -/
inductive Route where
  | home
  | login
  | logout
  | wifiConfig
  | loginConfig
  | otaConfig
  | emailConfig
  | dashboard
  | dashboardMonitor
  | gpioManage
  | gpioServer
  | gpioMode
  | gpioWrite
  | gpioEvent
  | gpioMonitor
  | gpioAnalogMonitor
  | mqttManage
  | mqttGeneral
  | mqttLwt
  | mqttPubsub
  | deviceRegister
  | storageList
  | storageFileUpload
  | storageFileList
  | storageFileDelete
deriving DecidableEq, Repr

/-- The uri of a route and the level it is registered with. -/
def Route.registration : Route → String × Middlewares
  | .home => ("/", .noMiddleware)
  | .login => ("/login", .noMiddleware)
  | .logout => ("/logout", .noMiddleware)
  | .wifiConfig => ("/wifi-config", .rootAuthMiddleware)
  | .loginConfig => ("/login-config", .authMiddleware)
  | .otaConfig => ("/ota-config", .rootAuthMiddleware)
  | .emailConfig => ("/email-config", .rootAuthMiddleware)
  | .dashboard => ("/dashboard", .authMiddleware)
  | .dashboardMonitor => ("/listen-dashboard", .apiMiddleware)
  | .gpioManage => ("/gpio-manage", .authMiddleware)
  | .gpioServer => ("/gpio-server", .rootAuthMiddleware)
  | .gpioMode => ("/gpio-config", .rootAuthMiddleware)
  | .gpioWrite => ("/gpio-write", .rootAuthMiddleware)
  | .gpioEvent => ("/gpio-event", .rootAuthMiddleware)
  | .gpioMonitor => ("/gpio-monitor", .authMiddleware)
  | .gpioAnalogMonitor => ("/listen-monitor", .apiMiddleware)
  | .mqttManage => ("/mqtt-manage", .rootAuthMiddleware)
  | .mqttGeneral => ("/mqtt-general-config", .rootAuthMiddleware)
  | .mqttLwt => ("/mqtt-lwt-config", .rootAuthMiddleware)
  | .mqttPubsub => ("/mqtt-pubsub-config", .rootAuthMiddleware)
  | .deviceRegister => ("/device-register-config", .rootAuthMiddleware)
  | .storageList => ("/storage", .authMiddleware)
  | .storageFileUpload => ("/storage-fileupload", .authMiddleware)
  | .storageFileList => ("/storage-filelist", .authMiddleware)
  | .storageFileDelete => ("/storage-filedel", .authMiddleware)

def Route.level (route : Route) : Middlewares := route.registration.2

def allRoutes : List Route :=
  [.home, .login, .logout, .wifiConfig, .loginConfig, .otaConfig, .emailConfig, .dashboard,
    .dashboardMonitor, .gpioManage, .gpioServer, .gpioMode, .gpioWrite, .gpioEvent, .gpioMonitor,
    .gpioAnalogMonitor, .mqttManage, .mqttGeneral, .mqttLwt, .mqttPubsub, .deviceRegister,
    .storageList, .storageFileUpload, .storageFileList, .storageFileDelete]

def routeOf (request : HttpRequestData) : Option Route :=
  allRoutes.find? fun route => request.uri = text route.registration.1

section Dispatch

variable {σ : Type} (services : Services σ) (visit : Visit)

/-- The handler of a route.  A page that only shows something looks no further than
for the session, if the middleware has not. -/
def Route.handle (route : Route) (slot : Option ℕ) (portal : Portal σ) : Portal σ :=
  match route with
  | .home => (portal.activeSession services visit slot).2
  | .login => handleLoginRoute services visit slot portal
  | .logout => handleLogoutRoute services visit slot portal
  | .wifiConfig => handleWiFiConfigRoute services visit slot portal
  | .loginConfig => handleLoginConfigRoute services visit slot portal
  | .otaConfig => handleOtaServerConfigRoute services visit portal
  | .emailConfig => handleEmailConfigRoute services visit portal
  | .gpioServer => handleGpioServerConfigRoute services visit portal
  | .gpioMode => handleGpioModeConfigRoute services visit portal
  | .gpioWrite => handleGpioWriteConfigRoute services visit portal
  | .gpioEvent => handleGpioEventConfigRoute services visit portal
  | .mqttGeneral => handleMqttGeneralConfigRoute services visit portal
  | .mqttLwt => handleMqttLWTConfigRoute services visit portal
  | .mqttPubsub => handleMqttPubSubConfigRoute services visit portal
  | .deviceRegister => handleDeviceRegisterConfigRoute services visit portal
  | .storageFileUpload => handleStorageFileUploadRoute services visit portal slot
  | .storageFileDelete => handleStorageFileDeleteRoute services visit portal slot
  | .dashboard | .dashboardMonitor | .gpioManage | .gpioMonitor | .gpioAnalogMonitor
  | .mqttManage | .storageList | .storageFileList => portal

def userStoreRootUid : UInt16 := 0

/-- `guard_state_change`: only a POST has to carry the token. -/
def guardStateChange (request : HttpRequestData) (session : Option WebSession) : Bool :=
  !isPostRequest request || session.any (hasValidCsrfToken · request)

/-- `handle_middleware`: the slot that the handler may run with, or a refusal. -/
def handleMiddleware (level : Middlewares) (portal : Portal σ) : Option (Option ℕ) × Portal σ :=
  match level with
  | .noMiddleware => (some none, portal)
  | level =>
    match portal.activeSession services visit none with
    | (none, portal) => (none, portal)
    | (some slot, portal) =>
      if level = .rootAuthMiddleware ∧ uidOf (some slot) portal ≠ userStoreRootUid then
        (none, portal)
      else if guardStateChange visit.request portal.sessions[slot]? then
        (some (some slot), portal)
      else
        (none, portal)

def handleRequest (portal : Portal σ) : Portal σ :=
  match routeOf visit.request with
  | none => (portal.activeSession services visit none).2
  | some route =>
    match handleMiddleware services visit route.level portal with
    | (none, portal) => portal
    | (some slot, portal) => route.handle services visit slot portal

end Dispatch

/-- A device without users on the given files. -/
def servicesOn {σ : Type} (fs : FileSystem σ) (basename : Text → Text) : Services σ :=
  { fs := fun _ => fs
    privilegedFs := fs
    basename := basename
    appendFileSeparator := id
    replace := fun string _ _ => string
    isAuthorized := fun _ _ _ => false
    findUserByName := fun _ _ => none
    setPassword := fun _ _ world => (false, world)
    sessionName := fun _ => text "session"
    idleMaxAge := fun _ => 300
    getLoginCredentialTable := fun _ => false
    setLoginPassword := fun _ world => world
    setConfigTable := fun _ _ world => world
    digitalPins := 0
    gpioEvents := fun _ => ⟨fun _ => false, []⟩
    getHomeDirectory := fun _ => text "/"
    collectLocalImages := fun _ _ => []
    flashFromFile := fun _ world => (false, world) }

end PdiStack.Controllers
