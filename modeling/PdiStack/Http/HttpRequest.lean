import PdiStack.Core.Loop
import PdiStack.Utility.IOInterface

/-!
# HTTP requests

`HttpServerInterfaceImpl` reads one request at a time into `m_clientRequest`.
This module has the request record with its lookups, and the part of
`parseRequest` that comes before a multipart body: the request line, the headers,
a body that is read as a whole, and the arguments of the query string and of a
urlencoded form.
-/

namespace PdiStack.HttpRequest

open StringOperations IOInterface

/-- `http_param_t`.  A header that was collected but not sent has no value. -/
structure HttpParam where
  key : Text
  value : Option Text
deriving DecidableEq, Repr

/-- The copy that `fill` and `setvalue` keep of a string: its length is a
`uint16_t`. -/
def keptText (string : Text) : Text := (cString string).take ((cString string).length % 2 ^ 16)

def HttpParam.fill (key value : Text) : HttpParam := ⟨keptText key, some (keptText value)⟩

def HttpParam.isKeyMatch (param : HttpParam) (key : Text) : Bool := param.key = cString key

def HttpParam.setValue (param : HttpParam) (key value : Text) : HttpParam :=
  if param.isKeyMatch key then { param with value := some (keptText value) } else param

structure HttpRequestData where
  method : Text
  version : Text
  uri : Text
  body : Text
  headers : List HttpParam
  queries : List HttpParam
  formdata : List HttpParam
  files : List HttpParam
deriving DecidableEq, Repr

variable (request : HttpRequestData)

def HttpRequestData.clear : HttpRequestData :=
  { method := []
    version := []
    uri := []
    body := []
    headers := request.headers.map fun header => { header with value := none }
    queries := []
    formdata := []
    files := [] }

/-- Every entry an argument is looked up in, in the order of the lookup. -/
def HttpRequestData.arguments : List HttpParam :=
  request.queries ++ request.formdata ++ request.files

def arg (name : Text) : Text :=
  ((request.arguments.find? (·.isKeyMatch name)).bind (·.value)).getD []

def hasArg (name : Text) : Bool := request.arguments.any (·.isKeyMatch name)

def isPostRequest : Bool := request.method = text "POST"

def header (name : Text) : Text :=
  ((request.headers.find? (·.isKeyMatch name)).bind (·.value)).getD []

def hexDigit (char : UInt8) : Option UInt8 :=
  if 0x30 ≤ char ∧ char ≤ 0x39 then some (char - 0x30)
  else if 0x41 ≤ char ∧ char ≤ 0x46 then some (char - 0x41 + 10)
  else if 0x61 ≤ char ∧ char ≤ 0x66 then some (char - 0x61 + 10)
  else none

/-- `strtol` to base sixteen on two characters, cut to a `char`.  It skips blanks,
takes a sign and stops at the first character that is no digit. -/
def strtolHex (high low : UInt8) : UInt8 :=
  match hexDigit high, hexDigit low with
  | some high, some low => high * 16 + low
  | some high, none => high
  | none, some low =>
    if high = 0x2D then 0 - low
    else if high = 0x2B ∨ high = 0x20 ∨ (0x09 ≤ high ∧ high ≤ 0x0D) then low
    else 0
  | none, none => 0

/-- `urlDecode`.  A percent sign with fewer than two characters behind it stands
for itself. -/
def urlDecode : Text → Text
  | [] => []
  | 0x25 :: high :: low :: rest => strtolHex high low :: urlDecode rest
  | char :: rest => (if char = 0x2B then 0x20 else char) :: urlDecode rest

/-- One `key=value` of a query string.  A parameter without `=` is skipped. -/
def queryParam (param : Text) : Option HttpParam :=
  (find param [0x3D] 0).map fun equal =>
    HttpParam.fill (urlDecode (param.take equal)) (urlDecode (param.drop (equal + 1)))

def parseQuery (query : Text) : List HttpParam := (query.splitOn 0x26).filterMap queryParam

/-- Method, URI and version of a request line, or three empty texts. -/
def splitRequestLine (line : Text) : Text × Text × Text :=
  match find line [0x20] 0 with
  | none => ([], [], [])
  | some pos1 =>
    match find line [0x20] (pos1 + 1) with
    | none => ([], [], [])
    | some pos2 =>
      (line.take pos1, (line.drop (pos1 + 1)).take (pos2 - pos1 - 1), line.drop (pos2 + 1))

structure BodyHeaders where
  isForm : Bool
  isEncoded : Bool
  boundaryStr : Text
  contentLength : ℕ
deriving DecidableEq, Repr

/-- The locals of the header loop. -/
structure HeaderState where
  client : Client
  headers : List HttpParam
  body : BodyHeaders

/-- The boundary of a multipart content type: what follows its first `=`, or the
whole value, without quotes. -/
def boundaryOf (value : Text) : Text :=
  removeAll (value.drop ((find value [0x3D] 0).elim 0 (· + 1))) 0x22

def readBodyHeader (key value : Text) (body : BodyHeaders) : BodyHeaders :=
  if key = text "Content-Type" then
    if contains value (text "application/x-www-form-urlencoded") then
      { body with isForm := false, isEncoded := true }
    else if contains value (text "multipart/") then
      { body with isForm := true, boundaryStr := boundaryOf value }
    else
      body
  else if key = text "Content-Length" then
    { body with contentLength := (stringToUint32 value).toNat }
  else
    body

/-- One header line.  A line without a colon is skipped. -/
def readHeaderLine (line : Text) (state : HeaderState) : HeaderState :=
  match find line [0x3A] 0 with
  | none => state
  | some colon =>
    let key := line.take colon
    let value := (line.drop (colon + 1)).dropWhile (· = 0x20)
    { state with
      headers := state.headers.map (·.setValue key value)
      body := readBodyHeader key value state.body }

/-- One pass of the header loop, which ends at an empty line. -/
def headerPass (state : HeaderState) : Loop.Pass HeaderState HeaderState :=
  let line := readLine 256 state.client
  if line.1 = [] then
    .done { state with client := line.2 }
  else
    .again (readHeaderLine line.1 { state with client := line.2 })

@[simp]
theorem readHeaderLine_client (line : Text) (state : HeaderState) :
    (readHeaderLine line state).client = state.client := by
  unfold readHeaderLine
  split <;> rfl

theorem headerPass_variant :
    Loop.Variant headerPass (fun state => state.client.arrivals.length) := by
  intro state next hpass
  dsimp only [headerPass] at hpass
  split at hpass
  case isTrue => cases hpass
  case isFalse hline =>
    cases hpass
    simp only [readHeaderLine_client]
    exact length_readLine_lt fun hempty => hline hempty.1

def readHeaders (headers : List HttpParam) (client : Client) : HeaderState :=
  Loop.run headerPass _ headerPass_variant
    { client := client, headers := headers, body := ⟨false, false, [], 0⟩ }

def httpMaxBodySize : ℕ := 4096

def httpClientMaxRead : ℕ := 1500

/-- The query string of the URI, and behind it the body of a urlencoded form. -/
def queryStringOf (isEncoded : Bool) : Text :=
  let query := match find request.uri [0x3F] 0 with
    | none => []
    | some queryPos => request.uri.drop (queryPos + 1)
  if isEncoded ∧ request.body ≠ [] then query ++ 0x26 :: request.body else query

def readQueries (isEncoded : Bool) (request : HttpRequestData) : HttpRequestData :=
  { request with
    uri := request.uri.take ((find request.uri [0x3F] 0).getD request.uri.length)
    queries := request.queries ++ parseQuery (queryStringOf request isEncoded) }

/-- How far `parseRequest` gets before a multipart body. -/
inductive HeadOutcome where
  /-- It returns: no request line, a body over the limit or one that did not
  arrive in full. -/
  | refused (request : HttpRequestData) (client : Client)
  | complete (request : HttpRequestData) (client : Client)
  /-- A multipart body follows. -/
  | form (boundaryStr : Text) (request : HttpRequestData) (client : Client)
deriving DecidableEq

def readBody (body : BodyHeaders) (request : HttpRequestData) (client : Client) : HeadOutcome :=
  if body.isForm then
    .form body.boundaryStr (readQueries body.isEncoded request) client
  else if httpMaxBodySize < body.contentLength then
    .refused { request with body := [] } client
  else
    let read := readPacket body.contentLength httpClientMaxRead client
    let request := if 0 < body.contentLength then { request with body := read.1 } else request
    if request.body.length < body.contentLength then
      .refused request read.2
    else
      .complete (readQueries body.isEncoded request) read.2

def readHead (client : Client) : HeadOutcome :=
  let line := readLine 0 client
  if line.1 = [] then
    .refused request line.2
  else
    let parts := splitRequestLine line.1
    let head := readHeaders request.headers line.2
    readBody head.body
      { request with
        method := parts.1, uri := parts.2.1, version := parts.2.2, headers := head.headers }
      head.client

def headersOf (request : HttpRequestData) (client : Client) : HeaderState :=
  readHeaders request.headers (readLine 0 client).2

/-- A multipart body starts where the headers end, with the boundary they name. -/
theorem form_of_readHead {request head : HttpRequestData} {client rest : Client} {boundaryStr : Text}
    (hhead : readHead request client = .form boundaryStr head rest) :
    (headersOf request client).body.isForm = true ∧
      boundaryStr = (headersOf request client).body.boundaryStr ∧
      rest = (headersOf request client).client ∧
      ∃ read, read.uri = (splitRequestLine (readLine 0 client).1).2.1 ∧
        head = readQueries (headersOf request client).body.isEncoded read := by
  dsimp only [readHead] at hhead
  rw [← headersOf] at hhead
  split at hhead
  · cases hhead
  dsimp only [readBody] at hhead
  split at hhead
  case isTrue hform =>
    cases hhead
    exact ⟨hform, rfl, rfl, _, rfl, rfl⟩
  split at hhead
  · cases hhead
  generalize (if 0 < (headersOf request client).body.contentLength then _ else _) = read at hhead
  split at hhead
  · cases hhead
  · cases hhead

end PdiStack.HttpRequest
