import Soveren.Broker.Bindings

/-! The broker's registry: admin updates and the resolution of requests. The locks make an
update and a resolution one step each; the limiters that a registry change reconfigures are
left out. -/
namespace Soveren.Broker

abbrev Dict (α : Type) := AList fun _ : String => α

structure TenantBindingRegistry where
  openai : Option BrokerBinding := none
  byCapability : Dict BrokerBinding := ∅

structure BindingRegistry where
  byTenant : Dict TenantBindingRegistry := ∅
  tenantByLocalIp : Dict String := ∅

structure RegistryUpdate where
  tenantKey : String
  registry : Option TenantBindingRegistry

/-- The values of a dictionary. -/
def Dict.values {α : Type} (d : Dict α) : List α := d.entries.map (·.2)

def tenantRegistryBindings (r : TenantBindingRegistry) : List BrokerBinding :=
  r.openai.toList ++ Dict.values r.byCapability

def registryBindings (g : BindingRegistry) : List BrokerBinding :=
  (Dict.values g.byTenant).flatMap tenantRegistryBindings

/-- Add a parsed binding to its tenant; `bindingIds` are the ids seen before. -/
def addBinding (r : TenantBindingRegistry) (bindingIds : List String) (b : BrokerBinding) :
    Result TenantBindingRegistry :=
  if bindingIds.contains b.bindingId then
    raise "credential registry contains duplicate binding ids"
  else match b.kind with
    | .openaiResponses =>
      if r.openai.isSome then raise "credential registry contains multiple OpenAI bindings"
      else .ok { r with openai := some b }
    | .http => match b.capability with
      | none => raise "credential registry contains duplicate capabilities"
      | some capability =>
        if (r.byCapability.lookup capability).isSome then
          raise "credential registry contains duplicate capabilities"
        else .ok { r with byCapability := r.byCapability.insert capability b }

/-- The loop of `_parse_tenant_registry`. -/
def parseTenantBindings (lib : Library) (r : TenantBindingRegistry) (bindingIds : List String) :
    List Json → Result TenantBindingRegistry
  | [] => .ok r
  | value :: values => do
    let b ← parseBinding lib value
    let r' ← addBinding r bindingIds b
    parseTenantBindings lib r' (bindingIds ++ [b.bindingId]) values

def parseTenantRegistry (lib : Library) (values : List Json) : Result TenantBindingRegistry :=
  parseTenantBindings lib {} [] values

/-- `raw.get("version") == 2`; a float of that value compares equal. -/
def isRegistryVersion (value : Option Json) : Bool :=
  value = some (.int 2) || value = some (.float "2.0")

def parseRegistryUpdate (lib : Library) (raw : Json) : Result RegistryUpdate := do
  require (match raw with
    | .obj _ => isRegistryVersion (raw.get? "version")
    | _ => false) "credential registry version is invalid"
  let tenantKey ← parseText (raw.get? "tenant_key") isDigest
    "credential registry tenant key is invalid"
  if raw.get? "operation" = some (.str "remove_tenant") then do
    require (raw.get? "bindings").isNone "credential tenant removal must not contain bindings"
    .ok ⟨tenantKey, none⟩
  else do
    require (raw.get? "operation" = some (.str "replace_tenant"))
      "credential registry operation is invalid"
    match raw.get? "bindings" with
    | some (.arr values) => do
      require (values ≠ [] && values.length ≤ maxBindingsPerTenant)
        "credential registry bindings are invalid"
      let registry ← parseTenantRegistry lib values
      .ok ⟨tenantKey, some registry⟩
    | _ => raise "credential registry bindings are invalid"

/-- `setdefault` of every address of a binding, checked against the tenant. -/
def claimIps (tenantKey : String) (owners : Dict String) : List String → Result (Dict String)
  | [] => .ok owners
  | localIp :: ips => match owners.lookup localIp with
    | none => claimIps tenantKey (owners.insert localIp tenantKey) ips
    | some owner =>
      if owner ≠ tenantKey then raise "credential registry local IP belongs to multiple tenants"
      else claimIps tenantKey owners ips

/-- The variables of the loop of `_build_registry`. -/
structure Build where
  owners : Dict String := ∅
  bindingIds : List String := []
  totalBindings : ℕ := 0

def buildBindings (tenantKey : String) (s : Build) : List BrokerBinding → Result Build
  | [] => .ok s
  | b :: bindings =>
    if s.bindingIds.contains b.bindingId then
      raise "credential registry contains cross-tenant duplicate binding ids"
    else do
      let owners ← claimIps tenantKey s.owners b.allowedLocalIps
      buildBindings tenantKey
        { s with owners := owners, bindingIds := s.bindingIds ++ [b.bindingId] } bindings

def buildTenant (s : Build) (tenantKey : String) (r : TenantBindingRegistry) : Result Build := do
  require (isDigest tenantKey) "credential registry tenant key is invalid"
  let bindings := tenantRegistryBindings r
  require (bindings ≠ [] && bindings.length ≤ maxBindingsPerTenant)
    "credential registry bindings are invalid"
  let total := s.totalBindings + bindings.length
  require (total ≤ maxTotalBindings) "credential registry global binding limit exceeded"
  buildBindings tenantKey { s with totalBindings := total } bindings

def buildTenants (s : Build) : List (Σ _ : String, TenantBindingRegistry) → Result Build
  | [] => .ok s
  | ⟨tenantKey, r⟩ :: tenants => do
    let s' ← buildTenant s tenantKey r
    buildTenants s' tenants

def buildRegistry (byTenant : Dict TenantBindingRegistry) : Result BindingRegistry := do
  require (byTenant.entries.length ≤ maxTenants) "credential registry tenant limit exceeded"
  let s ← buildTenants {} byTenant.entries
  .ok ⟨byTenant, s.owners⟩

structure CredentialBroker where
  registry : BindingRegistry := {}
  maxBufferedRequestBytes : Int
  maxBufferedRequestBytesPerTenant : Int

def validateRegistryCapacity (s : CredentialBroker) (g : BindingRegistry) : Result Unit :=
  require (!(registryBindings g).any fun b =>
      min s.maxBufferedRequestBytes s.maxBufferedRequestBytesPerTenant < b.limits.maxRequestBytes)
    "credential binding request size exceeds the broker-wide buffer budget"

def replaceTenantRegistry (s : CredentialBroker) (update : RegistryUpdate) : Result CredentialBroker := do
  let byTenant := match update.registry with
    | none => s.registry.byTenant.erase update.tenantKey
    | some r => s.registry.byTenant.insert update.tenantKey r
  let g ← buildRegistry byTenant
  validateRegistryCapacity s g
  .ok { s with registry := g }

/-- What an admin connection delivers: a stream that ends early, or a payload of a declared
size with the value it decodes to, if it is JSON. -/
inductive AdminInput where
  | incomplete
  | payload (size : ℕ) (raw : Option Json)

def readUpdate (lib : Library) : AdminInput → Result RegistryUpdate
  | .incomplete => .error .incompleteRead
  | .payload size raw =>
    if size < 1 || maxAdminPayloadBytes < size then
      raise "credential registry payload size is invalid"
    else match raw with
      | none => .error .jsonDecodeError
      | some value => parseRegistryUpdate lib value

def receiveUpdate (lib : Library) (s : CredentialBroker) (input : AdminInput) :
    Result CredentialBroker := do
  let update ← readUpdate lib input
  replaceTenantRegistry s update

/-- The broker after an admin connection, and whether the response says `ok`. -/
def handleAdmin (lib : Library) (s : CredentialBroker) (input : AdminInput) : CredentialBroker × Bool :=
  match receiveUpdate lib s input with
  | .ok s' => (s', true)
  | .error _ => (s, false)

inductive RouteKind where
  | httpBinding | openai
  deriving DecidableEq

/-- What resolution reads of a request; `sockname` is the local address, if it is known. -/
structure Request where
  sockname : Option String
  method : String
  path : String
  queryString : String
  capability : String
  tail : String

structure Upstream where
  origin : String
  path : String
  query : String
  deriving DecidableEq

def openaiUpstream (path : String) : Option Upstream :=
  if path = "/v1/responses" then some ⟨"https://api.openai.com", "/v1/responses", ""⟩
  else if path = "/v1/responses/compact" then
    some ⟨"https://api.openai.com", "/v1/responses/compact", ""⟩
  else none

def requestLocalIp (lib : Library) (request : Request) : Result String :=
  match request.sockname.bind lib.ipAddress with
  | some address => .ok address.text
  | none => .error (.httpForbidden "credential binding network could not be verified")

def ensureBindingAccess (localIp : String) (b : BrokerBinding) : Result Unit :=
  if b.allowedLocalIps.contains localIp then .ok ()
  else .error (.httpForbidden
    "credential binding is not authorized for this conversation network")

def requestBindingPath (tail : String) : Result String :=
  let path := if tail = "" then "/" else "/" ++ tail
  if isUnsafePath path then .error (.httpBadRequest "request path is not normalized") else .ok path

def pathMatchesPrefix (path root : String) : Bool :=
  root = "/" || path = root || (root.toList ++ ['/']).isPrefixOf path.toList

def resolveOpenai (localIp : String) (r : TenantBindingRegistry) (request : Request) :
    Result (BrokerBinding × Upstream) :=
  match r.openai with
  | none => .error (.httpServiceUnavailable "OpenAI credential binding is not provisioned")
  | some b => do
    ensureBindingAccess localIp b
    if request.queryString ≠ "" then
      .error (.httpBadRequest "query parameters are not supported")
    else match openaiUpstream request.path with
      | none => .error (.keyError request.path)
      | some upstream => .ok (b, upstream)

def resolveCapability (localIp : String) (r : TenantBindingRegistry) (request : Request) :
    Result (BrokerBinding × Upstream) :=
  match r.byCapability.lookup request.capability with
  | none => .error (.httpNotFound "credential binding not found")
  | some b => do
    ensureBindingAccess localIp b
    if !b.allowedMethods.contains request.method then
      .error (.httpMethodNotAllowed request.method b.allowedMethods)
    else do
      let path ← requestBindingPath request.tail
      if !b.allowedPathPrefixes.any (pathMatchesPrefix path) then
        .error (.httpForbidden "request path is not allowed for this credential binding")
      else match b.targetOrigin with
        | none => .error (.httpServiceUnavailable "credential binding is invalid")
        | some origin => .ok (b, ⟨origin, path, request.queryString⟩)

def resolveRoute (routeKind : RouteKind) (localIp : String) (r : TenantBindingRegistry)
    (request : Request) : Result (BrokerBinding × Upstream) :=
  match routeKind with
  | .openai => resolveOpenai localIp r request
  | .httpBinding => resolveCapability localIp r request

def resolveBinding (lib : Library) (g : BindingRegistry) (routeKind : RouteKind)
    (request : Request) : Result (String × BrokerBinding × Upstream) := do
  let localIp ← requestLocalIp lib request
  match g.tenantByLocalIp.lookup localIp with
  | none => .error (.httpForbidden "credential tenant network is not authorized")
  | some tenantKey => match g.byTenant.lookup tenantKey with
    | none => .error (.keyError tenantKey)
    | some r => do
      let (b, upstream) ← resolveRoute routeKind localIp r request
      .ok (tenantKey, b, upstream)

/-- The broker after a sequence of admin connections on an empty registry. -/
def afterUpdates (lib : Library) (maxBuffered maxBufferedPerTenant : Int)
    (inputs : List AdminInput) : CredentialBroker :=
  inputs.foldl (fun s input => (handleAdmin lib s input).1)
    ⟨{}, maxBuffered, maxBufferedPerTenant⟩

end Soveren.Broker
