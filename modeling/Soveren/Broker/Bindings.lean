import Mathlib.Data.List.AList
import Mathlib.Data.List.DropRight
import Mathlib.Data.List.Infix
import Soveren.Relational.Json

/-! The credential bindings of the sandbox broker and their parser. What the broker takes from
the host's libraries (addresses, URLs, domain names, base64 and case mapping) is a parameter;
no result depends on it. A set of texts is kept as a list that only membership reads, and the
order of a dictionary's entries is not kept. -/
namespace Soveren.Broker

/-- What an admin update or a request can raise. -/
inductive BrokerError where
  | valueError (message : String)
  | unicodeError
  | jsonDecodeError
  | incompleteRead
  | typeError
  | overflowError
  | keyError (key : String)
  | httpForbidden (text : String)
  | httpServiceUnavailable (text : String)
  | httpBadRequest (text : String)
  | httpNotFound (text : String)
  | httpMethodNotAllowed (method : String) (allowed : List String)
  deriving DecidableEq

structure IpAddress where
  text : String
  version : ℕ
  isGlobal : Bool

/-- The parts of a split URL; `port` is `none` when reading it raises. -/
structure SplitUrl where
  scheme : String
  hostname : Option String
  username : Option String
  password : Option String
  path : String
  query : String
  fragment : String
  port : Option (Option ℕ)

/-- The host library. -/
structure Library where
  ipAddress : String → Option IpAddress
  urlsplit : String → Option SplitUrl
  idna : String → Option String
  b64decode : String → Option (List UInt8)
  upper : String → String
  lower : String → String

def maxAdminPayloadBytes : ℕ := 1024 * 1024
def maxBindingsPerTenant : ℕ := 256
def maxTenants : ℕ := 256
def maxTotalBindings : ℕ := 1024
def maxRequestBytes : Int := 64 * 1024 * 1024

def httpMethods : List String := ["DELETE", "GET", "HEAD", "PATCH", "POST", "PUT"]

def hopByHopHeaders : List String :=
  ["connection", "keep-alive", "proxy-authenticate", "proxy-authorization", "te", "trailer",
    "transfer-encoding", "upgrade"]

def strippedRequestHeaders : List String :=
  hopByHopHeaders ++ ["authorization", "api-key", "content-length", "cookie", "forwarded", "host",
    "openai-organization", "openai-project", "set-cookie", "x-api-key", "x-forwarded-for",
    "x-forwarded-host", "x-forwarded-proto", "x-forwarded-uri", "x-http-method",
    "x-http-method-override", "x-method-override", "x-original-url", "x-rewrite-url"]

def isLowerHex (c : Char) : Bool := ('a' ≤ c && c ≤ 'f') || c.isDigit

/-- `^[a-f0-9]{64}$`, the form of binding ids and of tenant keys. -/
def isDigest (s : String) : Bool := Text.len s = 64 && s.toList.all isLowerHex

/-- `^[A-Za-z0-9_-]{32,128}$`. -/
def isCapability (s : String) : Bool :=
  32 ≤ Text.len s && Text.len s ≤ 128 && s.toList.all fun c => c.isAlphanum || c = '_' || c = '-'

def isHeaderName (s : String) : Bool :=
  s ≠ "" && s.toList.all fun c => c.isAlphanum || "!#$%&'*+.^_`|~-".toList.contains c

/-- `^[a-z0-9](?:[a-z0-9-]{0,61}[a-z0-9])?$`. -/
def isDomainLabel (s : List Char) : Bool :=
  let plain := fun c : Char => c.isLower || c.isDigit
  s ≠ [] && s.length ≤ 63 && s.head?.all plain && s.getLast?.all plain &&
    s.all fun c => plain c || c = '-'

structure BindingLimits where
  maxConcurrentRequests : Int
  requestsPerMinute : Int
  maxRequestBytes : Int
  queueTimeoutS : Json
  requestReadTimeoutS : Json
  responseTimeoutS : Json
  deriving DecidableEq

inductive BindingKind where
  | http | openaiResponses
  deriving DecidableEq

structure BrokerBinding where
  bindingId : String
  kind : BindingKind
  secret : String
  allowedLocalIps : List String
  limits : BindingLimits
  capability : Option String := none
  targetOrigin : Option String := none
  credentialHeader : String := "Authorization"
  credentialPrefix : String := "Bearer "
  allowedMethods : List String := []
  allowedPathPrefixes : List String := []
  allowedRequestHeaders : List String := []
  allowedModels : List String := []
  deriving DecidableEq

abbrev Result := Except BrokerError

def raise {α : Type} (message : String) : Result α := .error (.valueError message)

/-- Raise unless the condition holds. -/
def require (condition : Bool) (message : String) : Result Unit :=
  if condition then .ok () else raise message

/-- A library call that raises a `ValueError` of its own. -/
def orRaise {α : Type} (value : Option α) (message : String) : Result α :=
  match value with
  | some a => .ok a
  | none => raise message

def positiveInt (value : Option Json) (name : String) : Result Int :=
  match value with
  | some (.int n) => if n < 1 then raise (name ++ " must be a positive integer") else .ok n
  | _ => raise (name ++ " must be a positive integer")

/-- A positive finite number. An integer too large for a float raises on its conversion. -/
def positiveFloat (value : Option Json) (name : String) : Result Json :=
  match value with
  | some (.int n) =>
    if 2 ^ 1024 - 2 ^ 970 ≤ n.natAbs then .error .overflowError
    else if n ≤ 0 then raise (name ++ " must be positive")
    else .ok (.int n)
  | some (.float r) =>
    if ["0.0", "inf", "nan"].contains r || r.toList.head? = some '-' then
      raise (name ++ " must be positive")
    else .ok (.float r)
  | _ => raise (name ++ " must be positive")

def BindingLimits.parse (value : Option Json) : Result BindingLimits :=
  match value with
  | some (.obj fields) => do
    let value := Json.obj fields
    let maxBytes ← positiveInt (value.get? "max_request_bytes") "max_request_bytes"
    require (maxBytes ≤ Broker.maxRequestBytes) "max_request_bytes must not exceed 64 MiB"
    let concurrent ← positiveInt (value.get? "max_concurrent_requests") "max_concurrent_requests"
    let perMinute ← positiveInt (value.get? "requests_per_minute") "requests_per_minute"
    let queueTimeout ← positiveFloat (value.get? "queue_timeout_s") "queue_timeout_s"
    let readTimeout ← positiveFloat (value.get? "request_read_timeout_s") "request_read_timeout_s"
    let responseTimeout ← positiveFloat (value.get? "response_timeout_s") "response_timeout_s"
    .ok ⟨concurrent, perMinute, maxBytes, queueTimeout, readTimeout, responseTimeout⟩
  | _ => raise "binding limits must be an object"

/-- The texts of a list that holds texts only. -/
def strings? : List Json → Option (List String)
  | [] => some []
  | .str s :: items => (strings? items).map (s :: ·)
  | _ :: _ => none

def decodeSecret (lib : Library) (value : Option Json) : Result String :=
  match value with
  | some (.str s) => do
    let bytes ← orRaise (lib.b64decode s) "credential secret is invalid"
    require (bytes.all (· < 128)) "credential secret is invalid"
    let decoded := String.ofList (bytes.map fun b => Char.ofNat b.toNat)
    require (decoded ≠ "" && bytes.length ≤ 16 * 1024 && decoded = Text.strip decoded &&
      decoded.toList.all fun c => 33 ≤ c.toNat && c.toNat ≤ 126) "credential secret is invalid"
    .ok decoded
  | _ => raise "credential secret is invalid"

def parseLocalIps (lib : Library) (value : Option Json) : Result (List String) :=
  match value with
  | some (.arr items) => do
    require (items ≠ []) "credential binding local IP allowlist is invalid"
    items.mapM fun item => match item with
      | .str s => do
        let address ← orRaise (lib.ipAddress s) "does not appear to be an IPv4 or IPv6 address"
        .ok address.text
      | _ => raise "credential binding local IP allowlist is invalid"
  | _ => raise "credential binding local IP allowlist is invalid"

def parseStringSet (value : Option Json) (name : String) : Result (List String) :=
  match value with
  | some (.arr items) => do
    let texts ← orRaise (strings? items) ("credential binding " ++ name ++ " are invalid")
    require (texts.all (· ≠ "")) ("credential binding " ++ name ++ " are invalid")
    .ok texts
  | _ => raise ("credential binding " ++ name ++ " are invalid")

/-- `path.split("/")`. -/
def pathSegments (path : String) : List (List Char) := path.toList.splitOn '/'

/-- One of the relative segments. -/
def isDots (segment : List Char) : Bool := segment = ['.'] || segment = ['.', '.']

/-- `"//" in path or "\\" in path or any(segment in {".", ".."} ...)`. -/
def isUnsafePath (path : String) : Bool :=
  ['/', '/'] <:+: path.toList || path.toList.contains '\\' || (pathSegments path).any isDots

def normalizePathPrefix (value : String) : Result String := do
  let text := Text.strip value
  require (text.toList.head? = some '/' && !text.toList.contains '?' && !text.toList.contains '#' &&
    !isUnsafePath text) "credential path prefix is invalid"
  .ok (if text = "/" then text else String.ofList (text.toList.rdropWhile (· = '/')))

def parsePathPrefixes (value : Option Json) : Result (List String) :=
  match value with
  | some (.arr items) => do
    let texts ← orRaise (strings? items) "credential binding path prefixes are invalid"
    require (texts ≠ []) "credential binding path prefixes are invalid"
    let paths ← texts.mapM normalizePathPrefix
    .ok paths.eraseDups
  | _ => raise "credential binding path prefixes are invalid"

/-- The host of a target: a public name, or a global address in its URL form. -/
def targetHost (lib : Library) (hostname : String) : Result String :=
  match lib.ipAddress hostname with
  | none => do
    let labels := hostname.toList.splitOn '.'
    require (Text.len hostname ≤ 253 && 2 ≤ labels.length && labels.all isDomainLabel)
      "credential target hostname must be a normalized public DNS name"
    .ok hostname
  | some address => do
    require address.isGlobal "credential target IP must be global"
    .ok (if address.version = 6 then "[" ++ hostname ++ "]" else hostname)

def normalizeHttpsOrigin (lib : Library) (value : String) : Result String := do
  let parsed ← orRaise (lib.urlsplit (Text.strip value)) "invalid URL"
  let hostname := parsed.hostname.getD ""
  require (lib.lower parsed.scheme = "https" && hostname ≠ "" && parsed.username.isNone &&
    parsed.password.isNone && (parsed.path = "" || parsed.path = "/") && parsed.query = "" &&
    parsed.fragment = "") "credential target must be an HTTPS origin"
  let port ← orRaise parsed.port "credential target port is invalid"
  match lib.idna hostname with
  | none => .error .unicodeError
  | some ascii => do
    let host ← targetHost lib (lib.lower ascii)
    require (port = none || port = some 443) "credential target must use HTTPS port 443"
    .ok ("https://" ++ host)

/-- The kind of a binding. A kind that cannot be hashed raises a `TypeError`. -/
def parseKind (value : Option Json) : Result BindingKind :=
  match value with
  | some (.str "http") => .ok .http
  | some (.str "openai_responses") => .ok .openaiResponses
  | some (.arr _) | some (.obj _) => .error .typeError
  | _ => raise "credential binding kind is invalid"

/-- A text field that passes a test. -/
def parseText (value : Option Json) (isValid : String → Bool) (message : String) : Result String :=
  match value with
  | some (.str s) => if isValid s then .ok s else raise message
  | _ => raise message

def parseAllowedModels (value : Option Json) : Result (List String) :=
  match value with
  | none => .ok []
  | some (.arr items) => do
    let texts ← orRaise (strings? items) "OpenAI binding model allowlist is invalid"
    require (texts.all (· ≠ "")) "OpenAI binding model allowlist is invalid"
    .ok texts
  | _ => raise "OpenAI binding model allowlist is invalid"

/-- The fields of an HTTP binding. -/
def parseHttpBinding (lib : Library) (value : Json) (bindingId secret : String)
    (localIps : List String) (limits : BindingLimits) : Result BrokerBinding := do
  let capability ← parseText (value.get? "capability") isCapability
    "HTTP credential capability is invalid"
  let target ← parseText (value.get? "target_origin") (fun _ => true)
    "HTTP credential target is invalid"
  let origin ← normalizeHttpsOrigin lib target
  let header ← parseText (value.get? "credential_header")
    (fun s => Text.len s ≤ 128 && isHeaderName s) "HTTP credential header is invalid"
  let injected := lib.lower header
  require (!((strippedRequestHeaders.contains injected) &&
    !(List.contains ["authorization", "api-key", "x-api-key"] injected)))
    "HTTP credential header is unsafe"
  let credentialPrefix ← parseText (value.get? "credential_prefix")
    (fun s => Text.len s ≤ 128 && s.toList.all fun c => 32 ≤ c.toNat && c.toNat ≤ 126)
    "HTTP credential prefix is invalid"
  let methods := (← parseStringSet (value.get? "allowed_methods") "allowed methods").map lib.upper
  require (methods ≠ [] && methods.all httpMethods.contains) "HTTP credential methods are invalid"
  let paths ← parsePathPrefixes (value.get? "allowed_path_prefixes")
  let headers := (← parseStringSet (value.get? "allowed_request_headers") "request headers").map
    lib.lower
  require (headers.all fun h => isHeaderName h && Text.len h ≤ 128 &&
    !strippedRequestHeaders.contains h && h ≠ injected) "HTTP credential request headers are unsafe"
  .ok { bindingId := bindingId
        kind := .http
        secret := secret
        allowedLocalIps := localIps
        limits := limits
        capability := some capability
        targetOrigin := some origin
        credentialHeader := header
        credentialPrefix := credentialPrefix
        allowedMethods := methods
        allowedPathPrefixes := paths
        allowedRequestHeaders := headers }

def parseBinding (lib : Library) (value : Json) : Result BrokerBinding :=
  match value with
  | .obj fields => do
    let value := Json.obj fields
    let bindingId ← parseText (value.get? "binding_id") isDigest "credential binding id is invalid"
    let kind ← parseKind (value.get? "kind")
    let secret ← decodeSecret lib (value.get? "secret")
    let localIps ← parseLocalIps lib (value.get? "allowed_local_ips")
    let limits ← BindingLimits.parse (value.get? "limits")
    match kind with
    | .openaiResponses => do
      let models ← parseAllowedModels (value.get? "allowed_models")
      .ok { bindingId := bindingId
            kind := kind
            secret := secret
            allowedLocalIps := localIps
            limits := limits
            allowedMethods := ["POST"]
            allowedModels := models }
    | .http => parseHttpBinding lib value bindingId secret localIps limits
  | _ => raise "credential binding must be an object"

end Soveren.Broker
