import PdiStack.Utility.DataTypeConversions

/-!
# The URL of an HTTP client

`SetUrl` fills a request by the parts that the URL has.  Every URL sets the host and the
port, but the secure flag is only ever raised and the path only set where there is one.
So both stay from an earlier URL, unless a redirect has cleared the request in between.
-/

namespace PdiStack.ClientUrl

open StringOperations DataTypeConversions List

/-- The fields of `http_req_t` that a URL is read into. -/
structure HttpReq where
  host : Option Text
  port : UInt16
  isHttps : Bool
  uri : Option Text
deriving DecidableEq

namespace HttpReq

def clear : HttpReq := { host := none, port := 80, isHttps := false, uri := none }

variable (request : HttpReq)

/-- The host, with the port cut off.  `StringToUint16` computes as `StringToUint32` does,
modulo 2 ^ 16. -/
def setHost (host : Text) : HttpReq :=
  match cStrstr host [0x3A] with
  | none => { request with host }
  | some index =>
    let digits := host.drop (index + 1)
    let port := (stringToUint32Upto digits (UInt8.ofNat digits.length)).toUInt16
    { request with host := host.take index, port, isHttps := request.isHttps || port = 443 }

/-- `init` behind the protocol. -/
def fill (url : Text) (hostIndex : ℕ) : HttpReq :=
  let rest := url.drop hostIndex
  let uriIndex := cStrstr rest [0x2F]
  let request :=
    if url.length % 2 ^ 16 = 0 then request
    else request.setHost (rest.take (uriIndex.getD (rest.length % 2 ^ 16)))
  if 0 < uriIndex.getD 0 then { request with uri := rest.drop (uriIndex.getD 0) } else request

def init (url : Text) : Bool × HttpReq :=
  let url := (cString url).dropWhile fun char => char = 0x20 ∨ char = 0x09
  match cStrstr url (text "://") with
  | none => (false, request)
  | some index =>
    if cStrstr url (text "https") = some 0 then
      (true, fill { request with port := 443, isHttps := true } url (index + 3))
    else if cStrstr url (text "http") = some 0 then
      (true, fill { request with port := 80 } url (index + 3))
    else
      (false, request)

def setUrl (url : Text) : HttpReq := (request.init url).2

end HttpReq

open HttpReq

/-- What a client does with its request: it sets a URL, or is redirected and clears it. -/
inductive Call where
  | setUrl (url : Text)
  | redirect

def Call.perform (request : HttpReq) : Call → HttpReq
  | .setUrl url => request.setUrl url
  | .redirect => .clear

def requestAfter (calls : List Call) : HttpReq := calls.foldl Call.perform .clear

structure UrlParts where
  secure : Bool
  host : Text
  port : Option UInt16
  path : Option Text

namespace UrlParts

variable (url : UrlParts)

def authority : Text :=
  url.host ++ url.port.elim [] fun port => 0x3A :: uint32ToString port.toUInt32 8

def scheme : Text := text (if url.secure then "https://" else "http://")

def spelled : Text := url.scheme ++ (url.authority ++ url.path.getD [])

def isHttps : Bool := url.secure || url.port = some 443

def request : HttpReq where
  host := some url.host
  port := url.port.getD (if url.secure then 443 else 80)
  isHttps := url.isHttps
  uri := url.path

end UrlParts

structure Url extends UrlParts where
  host_ne_nil : host ≠ []
  host_free : 0x3A ∉ host ∧ 0x2F ∉ host
  path_starts : ∀ text ∈ path, text.head? = some 0x2F
  free : 0 ∉ toUrlParts.spelled
  length_le : toUrlParts.spelled.length ≤ 300

variable (request : HttpReq) (url : Url)

theorem cStrstr_of_notMem {char : UInt8} (hchar : char ≠ 0) {str : Text} (hfree : char ∉ str) :
    cStrstr str [char] = none := by
  rw [Option.eq_none_iff_forall_ne_some]
  intro place hfound
  obtain ⟨before, after, rfl, -⟩ := (cStrstr_singleton_eq_some_iff hchar).mp hfound
  exact hfree (by simp)

theorem authority_spec : 0 ∉ url.authority ∧ 0x2F ∉ url.authority ∧ url.authority.length < 300 := by
  have hlength := url.length_le
  have hscheme : 0 < url.scheme.length := by
    rw [UrlParts.scheme]
    split <;> decide
  simp only [UrlParts.spelled, length_append] at hlength
  refine ⟨fun hzero => url.free (by simp [UrlParts.spelled, hzero]), fun hslash => ?_, by omega⟩
  rcases mem_append.mp hslash with hhost | hport
  · exact url.host_free.2 hhost
  cases hsome : url.port with
  | none => simp [hsome] at hport
  | some port =>
    have hdigit : 0x2F ∈ uint32ToString port.toUInt32 8 := by simpa [hsome] using hport
    exact absurd ((digits_uint32ToString port).1 _ hdigit) (by decide)

theorem setHost_authority :
    request.setHost url.authority =
      { request with
        host := some url.host
        port := url.port.getD request.port
        isHttps := request.isHttps || url.port = some 443 } := by
  obtain ⟨hzero, -, hlength⟩ := authority_spec url
  unfold UrlParts.authority at *
  cases hport : url.port with
  | none => simp [setHost, cStrstr_of_notMem (show (0x3A : UInt8) ≠ 0 by decide) url.host_free.1]
  | some port =>
    simp only [hport, Option.elim_some, length_append, length_cons, mem_append, not_or]
      at hzero hlength
    have hcolon : cStrstr (url.host ++ 0x3A :: uint32ToString port.toUInt32 8) [0x3A] =
        some url.host.length :=
      (cStrstr_singleton_eq_some_iff (by decide)).mpr ⟨url.host, _, rfl, rfl,
        Nat.lt_of_add_right_lt hlength, hzero.1, url.host_free.1⟩
    have hdigits : (url.host ++ 0x3A :: uint32ToString port.toUInt32 8).drop (url.host.length + 1) =
        uint32ToString port.toUInt32 8 := by simp
    simp only [setHost, Option.elim_some, hcolon, hdigits, stringToUint32Upto_uint32ToString]
    simp

theorem fill_spelled :
    request.fill url.spelled url.scheme.length =
      { request.setHost url.authority with uri := url.path.or request.uri } := by
  obtain ⟨hzero, hslash, hlength⟩ := authority_spec url
  have hpos : 0 < url.authority.length := by
    simp [UrlParts.authority, length_pos_iff.mpr url.host_ne_nil]
  have hmod : url.spelled.length % 2 ^ 16 ≠ 0 := by
    have hle := url.length_le
    simp only [UrlParts.spelled, length_append] at hle ⊢
    omega
  have huri : (request.setHost url.authority).uri = request.uri := by rw [setHost_authority]
  rw [fill, if_neg hmod, UrlParts.spelled, drop_left]
  cases hpath : url.path with
  | none =>
    have hwhole : url.authority.length < 65536 := by omega
    simp [cStrstr_of_notMem (show (0x2F : UInt8) ≠ 0 by decide) hslash, Nat.mod_eq_of_lt hwhole,
      ← huri]
  | some path =>
    obtain ⟨rest, rfl⟩ := head?_eq_some_iff.mp (url.path_starts path hpath)
    have hfound := (cStrstr_singleton_eq_some_iff (by decide)).mpr
      ⟨url.authority, rest, rfl, rfl, hlength, hzero, hslash⟩
    simp [hfound, hpos]

theorem init_spelled :
    request.init url.spelled =
      (true, fill { request with
        port := if url.secure then 443 else 80
        isHttps := request.isHttps || url.secure } url.spelled url.scheme.length) := by
  rw [init, cString_of_notMem url.free, UrlParts.spelled, UrlParts.scheme]
  cases url.secure with
  | true =>
    rw [Bool.or_true]
    rfl
  | false =>
    have hplain (rest : Text) : cStrstr (text "http://" ++ rest) (text "https") ≠ some 0 := by
      rw [show cStrstr (text "http://" ++ rest) (text "https") =
        (strstrFrom (text "https") 299 (text "ttp://" ++ rest)).map (· + 1) from rfl]
      simp
    rw [Bool.or_false]
    exact (if_neg (hplain _)).trans rfl

/-- A URL sets host and port, and leaves of the request before it the secure flag, and the
path where it has none. -/
theorem setUrl_spelled :
    request.setUrl url.spelled =
      { url.request with
        isHttps := request.isHttps || url.isHttps
        uri := url.path.or request.uri } := by
  rw [setUrl, init_spelled, fill_spelled, setHost_authority]
  simp [UrlParts.request, UrlParts.isHttps, Bool.or_assoc]

end PdiStack.ClientUrl
