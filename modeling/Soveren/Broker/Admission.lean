import Mathlib.Data.Rat.Init
import Soveren.Relational.Run
import Soveren.Broker.Isolation

/-! Admission of requests to the broker: the limiters of bindings and tenants, the stages that a
forwarded request goes through, and the updates that discard idle limiters. No lock is held where
a task is suspended, so a task takes a free lock without being suspended, and what it does from
one suspension to the next is one step. Objects are named by their place in a heap; the first
capacity is the one of the whole broker. -/
namespace Soveren.Broker
open Soveren.Run

/-- What ends a forwarded request otherwise than with a response. -/
inductive ForwardError where
  | resolution (error : BrokerError)
  | unsupportedMediaType (text : String)
  | requestEntityTooLarge (maxSize actualSize : Int)
  | tooManyRequests (text : String)
  | requestTimeout (text : String)
  | gatewayTimeout (text : String)
  | badGateway (text : String)
  | connectionError
  | cancelled
  | runtimeError (message : String)
  deriving DecidableEq

structure RateLimiter where
  timestamps : List ℚ := []

/-- Whether a request may be made now; if so, it is counted. -/
def RateLimiter.allow (limiter : RateLimiter) (now : ℚ) (limit : Int) : RateLimiter × Bool :=
  let recent := limiter.timestamps.dropWhile (· ≤ now - 60)
  if limit ≤ recent.length then (⟨recent⟩, false) else (⟨recent ++ [now]⟩, true)

structure BindingRuntime where
  maxConcurrentRequests : Int
  activeRequests : ℕ := 0
  waitingRequests : ℕ := 0
  rateLimiter : RateLimiter := {}

def BindingRuntime.isIdle (r : BindingRuntime) : Bool :=
  r.activeRequests = 0 && r.waitingRequests = 0

def BindingRuntime.hasRoom (r : BindingRuntime) : Bool :=
  (r.activeRequests : Int) < r.maxConcurrentRequests

/-- What a request does to the counters where it comes to wait for a slot, stops waiting for it,
obtains it after waiting and gives it back. -/
def BindingRuntime.joined (r : BindingRuntime) : BindingRuntime :=
  { r with waitingRequests := r.waitingRequests + 1 }

def BindingRuntime.left (r : BindingRuntime) : BindingRuntime :=
  { r with waitingRequests := r.waitingRequests - 1 }

def BindingRuntime.acquired (r : BindingRuntime) : BindingRuntime :=
  { r with activeRequests := r.activeRequests + 1, waitingRequests := r.waitingRequests - 1 }

def BindingRuntime.released (r : BindingRuntime) : BindingRuntime :=
  { r with activeRequests := r.activeRequests - 1 }

structure BrokerCapacity where
  maxInflightRequests : Int
  maxBufferedRequestBytes : Int
  inflightRequests : ℕ := 0
  waitingRequests : ℕ := 0
  bufferedRequestBytes : ℕ := 0

def BrokerCapacity.hasRoom (c : BrokerCapacity) (requestBytes : ℕ) : Bool :=
  c.inflightRequests < c.maxInflightRequests &&
    (c.bufferedRequestBytes + requestBytes : ℕ) ≤ c.maxBufferedRequestBytes

def BrokerCapacity.isIdle (c : BrokerCapacity) : Bool :=
  c.inflightRequests = 0 && c.waitingRequests = 0

def BrokerCapacity.joined (c : BrokerCapacity) : BrokerCapacity :=
  { c with waitingRequests := c.waitingRequests + 1 }

def BrokerCapacity.left (c : BrokerCapacity) : BrokerCapacity :=
  { c with waitingRequests := c.waitingRequests - 1 }

def BrokerCapacity.acquired (bytes : ℕ) (c : BrokerCapacity) : BrokerCapacity :=
  { c with
    inflightRequests := c.inflightRequests + 1
    bufferedRequestBytes := c.bufferedRequestBytes + bytes
    waitingRequests := c.waitingRequests - 1 }

def BrokerCapacity.canRelease (bytes : ℕ) (c : BrokerCapacity) : Bool :=
  !(c.inflightRequests < 1 || c.bufferedRequestBytes < bytes)

def BrokerCapacity.released (bytes : ℕ) (c : BrokerCapacity) : BrokerCapacity :=
  { c with
    inflightRequests := c.inflightRequests - 1
    bufferedRequestBytes := c.bufferedRequestBytes - bytes }

/-- Where a forwarded request is suspended, or how it has ended. -/
inductive Suspension where
  | running
  | runtimeQueue
  | tenantQueue
  | brokerQueue
  | bodyRead
  | upstream
  | ended (outcome : Except ForwardError ℕ)
  deriving DecidableEq

/-- What `_forward` reads of a request. -/
structure Incoming extends Request where
  contentEncoding : String := ""
  contentLength : Option ℕ := none
  canReadBody : Bool := false

/-- The variables of `_forward`. -/
structure Forward where
  incoming : Incoming
  routeKind : RouteKind
  tenantKey : Option String := none
  bindingId : Option String := none
  maxRequestBytes : Int := 0
  runtime : Option ℕ := none
  tenantCapacity : Option ℕ := none
  reservedRequestBytes : ℕ := 0
  runtimeAcquired : Bool := false
  tenantCapacityAcquired : Bool := false
  capacityAcquired : Bool := false
  suspension : Suspension := .running

/-- The limits that the broker process is started with. -/
structure Settings where
  maxInflightRequests : Int
  maxBufferedRequestBytes : Int
  maxInflightRequestsPerTenant : Int
  maxBufferedRequestBytesPerTenant : Int

structure BrokerProcess where
  broker : CredentialBroker
  maxInflightRequestsPerTenant : Int
  bindingRuntimes : Dict ℕ := ∅
  tenantCapacities : Dict ℕ := ∅
  runtimes : List BindingRuntime := []
  capacities : List BrokerCapacity

/-- The place of the broker-wide capacity. -/
def brokerCapacity : ℕ := 0

def BrokerProcess.start (settings : Settings) (initialRegistry : BindingRegistry) :
    Result BrokerProcess := do
  require (1 ≤ settings.maxInflightRequests) "broker max inflight requests must be a positive integer"
  require (1 ≤ settings.maxBufferedRequestBytes)
    "broker max buffered request bytes must be a positive integer"
  require (1 ≤ settings.maxInflightRequestsPerTenant)
    "broker max inflight requests per tenant must be a positive integer"
  require (1 ≤ settings.maxBufferedRequestBytesPerTenant)
    "broker max buffered request bytes per tenant must be a positive integer"
  let broker : CredentialBroker := ⟨initialRegistry, settings.maxBufferedRequestBytes,
    min settings.maxBufferedRequestBytesPerTenant settings.maxBufferedRequestBytes⟩
  validateRegistryCapacity broker initialRegistry
  .ok { broker := broker
        maxInflightRequestsPerTenant :=
          min settings.maxInflightRequestsPerTenant settings.maxInflightRequests
        capacities := [⟨settings.maxInflightRequests, settings.maxBufferedRequestBytes, 0, 0, 0⟩] }

def registryContains (g : BindingRegistry) (bindingId : String) : Bool :=
  (registryBindings g).any (·.bindingId = bindingId)

/-- The entries of a dictionary that satisfy a predicate. -/
def Dict.filter {α : Type} (d : Dict α) (p : String → α → Bool) : Dict α :=
  ⟨d.entries.filter fun e => p e.1 e.2, d.nodupKeys.sublist List.filter_sublist⟩

namespace BrokerProcess

variable (p : BrokerProcess)

def modifyRuntime (r : ℕ) (change : BindingRuntime → BindingRuntime) : BrokerProcess :=
  { p with runtimes := p.runtimes.modify r change }

def modifyCapacity (c : ℕ) (change : BrokerCapacity → BrokerCapacity) : BrokerProcess :=
  { p with capacities := p.capacities.modify c change }

def isRuntimeIdle (r : ℕ) : Bool := p.runtimes[r]?.any (·.isIdle)

def isCapacityIdle (c : ℕ) : Bool := p.capacities[c]?.any (·.isIdle)

/-- `_release_binding_runtime` after its release. -/
def discardRuntime (bindingId : String) (r : ℕ) : BrokerProcess :=
  if p.bindingRuntimes.lookup bindingId = some r && !registryContains p.broker.registry bindingId &&
      p.isRuntimeIdle r then
    { p with bindingRuntimes := p.bindingRuntimes.erase bindingId }
  else p

/-- `_release_tenant_capacity` after its release. -/
def discardCapacity (tenantKey : String) (c : ℕ) : BrokerProcess :=
  if p.tenantCapacities.lookup tenantKey = some c &&
      (p.broker.registry.byTenant.lookup tenantKey).isNone && p.isCapacityIdle c then
    { p with tenantCapacities := p.tenantCapacities.erase tenantKey }
  else p

end BrokerProcess

section Forward

variable (p : BrokerProcess) (f : Forward)

def capacityReleaseError : ForwardError :=
  .runtimeError "credential broker capacity was released without acquisition"

def runtimeReleaseError : ForwardError :=
  .runtimeError "credential binding runtime was released without acquisition"

/-- The end of `_forward`: the slot of the binding is given back. -/
def finishRuntime : BrokerProcess × Forward :=
  match f.runtimeAcquired, f.runtime, f.bindingId with
  | true, some r, some bindingId =>
    if p.runtimes[r]?.any (1 ≤ ·.activeRequests) then
      ((p.modifyRuntime r (·.released)).discardRuntime bindingId r,
        { f with runtimeAcquired := false })
    else (p, { f with suspension := .ended (.error runtimeReleaseError) })
  | _, _, _ => (p, f)

def finishTenant : BrokerProcess × Forward :=
  match f.tenantCapacityAcquired, f.tenantCapacity, f.tenantKey with
  | true, some c, some tenantKey =>
    if p.capacities[c]?.any (·.canRelease f.reservedRequestBytes) then
      finishRuntime ((p.modifyCapacity c (·.released f.reservedRequestBytes)).discardCapacity
        tenantKey c) { f with tenantCapacityAcquired := false }
    else (p, { f with suspension := .ended (.error capacityReleaseError) })
  | _, _, _ => finishRuntime p f

def finishCapacity : BrokerProcess × Forward :=
  if f.capacityAcquired then
    if p.capacities[brokerCapacity]?.any (·.canRelease f.reservedRequestBytes) then
      finishTenant (p.modifyCapacity brokerCapacity (·.released f.reservedRequestBytes))
        { f with capacityAcquired := false }
    else (p, { f with suspension := .ended (.error capacityReleaseError) })
  else finishTenant p f

/-- A request that raises while it waits is not waiting any more. -/
def leaveQueue : BrokerProcess :=
  match f.suspension with
  | .runtimeQueue => match f.runtime with
    | some r => p.modifyRuntime r (·.left)
    | none => p
  | .tenantQueue => match f.tenantCapacity with
    | some c => p.modifyCapacity c (·.left)
    | none => p
  | .brokerQueue => p.modifyCapacity brokerCapacity (·.left)
  | _ => p

/-- The request returns or raises where it is, and its `finally` block runs. -/
def finish (outcome : Except ForwardError ℕ) : BrokerProcess × Forward :=
  finishCapacity (leaveQueue p f) { f with suspension := .ended outcome }

/-- The broker-wide capacity is acquired as soon as there is room. -/
def awaitBroker : BrokerProcess × Forward :=
  if p.capacities[brokerCapacity]?.any (·.hasRoom f.reservedRequestBytes) then
    (p.modifyCapacity brokerCapacity (·.acquired f.reservedRequestBytes),
      { f with capacityAcquired := true, suspension := .bodyRead })
  else (p, f)

/-- What `BrokerCapacity.acquire` raises before it waits. -/
def exceedsCapacity (c : ℕ) : Option ForwardError :=
  p.capacities[c]?.bind fun cap =>
    if cap.maxBufferedRequestBytes < f.reservedRequestBytes then
      some (.requestEntityTooLarge cap.maxBufferedRequestBytes f.reservedRequestBytes)
    else none

def enterBroker : BrokerProcess × Forward :=
  match exceedsCapacity p f brokerCapacity with
  | some error => finish p f (.error error)
  | none => awaitBroker (p.modifyCapacity brokerCapacity (·.joined))
    { f with suspension := .brokerQueue }

def awaitTenant (c : ℕ) : BrokerProcess × Forward :=
  if p.capacities[c]?.any (·.hasRoom f.reservedRequestBytes) then
    enterBroker (p.modifyCapacity c (·.acquired f.reservedRequestBytes))
      { f with tenantCapacityAcquired := true, suspension := .running }
  else (p, f)

def enterTenant (c : ℕ) : BrokerProcess × Forward :=
  match exceedsCapacity p f c with
  | some error => finish p f (.error error)
  | none => awaitTenant (p.modifyCapacity c (·.joined)) { f with suspension := .tenantQueue } c

/-- `_request_buffer_reservation`; a limit is positive where it was parsed. -/
def requestBufferReservation (incoming : Incoming) (maxRequestBytes : Int) : ℕ :=
  match incoming.contentLength with
  | some length => length
  | none => if incoming.canReadBody then maxRequestBytes.toNat else 0

def awaitRuntime (r c : ℕ) : BrokerProcess × Forward :=
  if p.runtimes[r]?.any (·.hasRoom) then
    enterTenant (p.modifyRuntime r (·.acquired))
      { f with
        runtimeAcquired := true
        reservedRequestBytes := requestBufferReservation f.incoming f.maxRequestBytes
        suspension := .running } c
  else (p, f)

def enterRuntime (r c : ℕ) : BrokerProcess × Forward :=
  awaitRuntime (p.modifyRuntime r (·.joined)) { f with suspension := .runtimeQueue } r c

/-- `self._binding_runtimes.setdefault`. -/
def runtimeOf (bindingId : String) (maxConcurrentRequests : Int) : BrokerProcess × ℕ :=
  match p.bindingRuntimes.lookup bindingId with
  | some r => (p, r)
  | none =>
    ({ p with
       bindingRuntimes := p.bindingRuntimes.insert bindingId p.runtimes.length
       runtimes := p.runtimes ++ [⟨maxConcurrentRequests, 0, 0, {}⟩] }, p.runtimes.length)

/-- `self._tenant_capacities.setdefault`. -/
def capacityOf (tenantKey : String) : BrokerProcess × ℕ :=
  match p.tenantCapacities.lookup tenantKey with
  | some c => (p, c)
  | none =>
    ({ p with
       tenantCapacities := p.tenantCapacities.insert tenantKey p.capacities.length
       capacities := p.capacities ++ [⟨p.maxInflightRequestsPerTenant,
         p.broker.maxBufferedRequestBytesPerTenant, 0, 0, 0⟩] }, p.capacities.length)

/-- `_forward` up to its first suspension. -/
def receive (lib : Library) : BrokerProcess × Forward :=
  if f.incoming.contentEncoding ≠ "" then
    finish p f (.error (.unsupportedMediaType "compressed requests are not supported"))
  else match resolveBinding lib p.broker.registry f.routeKind f.incoming.toRequest with
    | .error e => finish p f (.error (.resolution e))
    | .ok (tenantKey, b, _) =>
      let (p, r) := runtimeOf p b.bindingId b.limits.maxConcurrentRequests
      let (p, c) := capacityOf p tenantKey
      let f := { f with
        tenantKey := some tenantKey
        bindingId := some b.bindingId
        maxRequestBytes := b.limits.maxRequestBytes
        runtime := some r
        tenantCapacity := some c }
      if f.incoming.contentLength.any (b.limits.maxRequestBytes < ·) then
        finish p f (.error (.requestEntityTooLarge b.limits.maxRequestBytes
          (f.incoming.contentLength.getD 0)))
      else enterRuntime p f r c

/-- The condition that a request waits on was notified. -/
def wake : BrokerProcess × Forward :=
  match f.suspension, f.runtime, f.tenantCapacity with
  | .runtimeQueue, some r, some c => awaitRuntime p f r c
  | .tenantQueue, _, some c => awaitTenant p f c
  | .brokerQueue, _, _ => awaitBroker p f
  | _, _, _ => (p, f)

/-- A request body and the value it decodes to, if it is JSON. -/
structure Body where
  length : ℕ
  json : Option Json := none

def enforceModelPolicy (body : Body) (allowedModels : List String) : Result Unit :=
  if allowedModels = [] then .ok ()
  else match body.json with
    | none => .error (.httpBadRequest "request body must be JSON")
    | some payload => match payload.get? "model" with
      | some (.str model) =>
        if allowedModels.contains model then .ok ()
        else .error (.httpForbidden "model is not allowed for this tenant")
      | _ => .error (.httpForbidden "model is not allowed for this tenant")

/-- `_forward` from the body to the upstream request; `session` says whether there is a client
session. -/
def forwardBody (lib : Library) (body : Body) (now : ℚ) (session : Bool) :
    BrokerProcess × Forward :=
  if f.maxRequestBytes < body.length then
    finish p f (.error (.requestEntityTooLarge f.maxRequestBytes body.length))
  else match resolveBinding lib p.broker.registry f.routeKind f.incoming.toRequest with
    | .error e => finish p f (.error (.resolution e))
    | .ok (tenantKey, b, _) =>
      if f.tenantKey ≠ some tenantKey || f.bindingId ≠ some b.bindingId then
        finish p f (.error (.resolution (.httpNotFound "credential binding was replaced")))
      else if b.limits.maxRequestBytes < body.length then
        finish p f (.error (.requestEntityTooLarge b.limits.maxRequestBytes body.length))
      else match if b.kind = .openaiResponses then enforceModelPolicy body b.allowedModels else .ok () with
        | .error e => finish p f (.error (.resolution e))
        | .ok _ =>
          match f.runtime.bind (p.runtimes[·]?) with
          | none => (p, f)
          | some rt =>
            let (limiter, allowed) := rt.rateLimiter.allow now b.limits.requestsPerMinute
            let p := p.modifyRuntime (f.runtime.getD 0) fun rt => { rt with rateLimiter := limiter }
            if !allowed then
              finish p f (.error (.tooManyRequests "credential request rate exceeded"))
            else if !session then
              finish p f (.error (.resolution (.httpServiceUnavailable "credential broker is starting")))
            else (p, { f with suspension := .upstream })

/-- The deadline of the await that the request is suspended in has passed; `prepared` is the status
of a response that is already being written. -/
def timeout (prepared : Option ℕ) : BrokerProcess × Forward :=
  match f.suspension with
  | .runtimeQueue => finish p f (.error (.tooManyRequests "credential concurrency limit exceeded"))
  | .tenantQueue => finish p f (.error (.tooManyRequests "tenant credential capacity exceeded"))
  | .brokerQueue => finish p f (.error (.tooManyRequests "credential broker capacity exceeded"))
  | .bodyRead => finish p f (.error (.requestTimeout "request body read timed out"))
  | .upstream => match prepared with
    | some status => finish p f (.ok status)
    | none => finish p f (.error (.gatewayTimeout "credential upstream response timed out"))
  | .running | .ended _ => (p, f)

/-- The await that the request is suspended in raises an error of the connection. -/
def disconnect : BrokerProcess × Forward :=
  match f.suspension with
  | .upstream => finish p f (.error (.badGateway "credential upstream unavailable"))
  | _ => finish p f (.error .connectionError)

end Forward

/-- The new limits of the runtimes whose binding is still registered. -/
def configureRuntimes (bindings : List BrokerBinding) (runtimes : List BindingRuntime)
    (entries : List (Σ _ : String, ℕ)) : List BindingRuntime :=
  entries.foldl (fun runtimes e => match bindings.find? (·.bindingId = e.1) with
    | some b => runtimes.modify e.2 fun rt =>
      { rt with maxConcurrentRequests := b.limits.maxConcurrentRequests }
    | none => runtimes) runtimes

/-- `_replace_tenant_registry` with the limiters that it configures and discards. -/
def BrokerProcess.replace (p : BrokerProcess) (update : RegistryUpdate) : Result BrokerProcess := do
  let broker ← replaceTenantRegistry p.broker update
  let bindings := registryBindings broker.registry
  let runtimes := configureRuntimes bindings p.runtimes p.bindingRuntimes.entries
  let p' := { p with broker := broker, runtimes := runtimes }
  let kept := p'.bindingRuntimes.filter fun bindingId r =>
    registryContains broker.registry bindingId || !p'.isRuntimeIdle r
  let capacities := p'.tenantCapacities.filter fun tenantKey c =>
    (broker.registry.byTenant.lookup tenantKey).isSome || !p'.isCapacityIdle c
  .ok { p' with bindingRuntimes := kept, tenantCapacities := capacities }

/-- The broker with its requests; `configured` are the registries that were in force so far. -/
structure Requests where
  process : BrokerProcess
  forwards : List Forward := []
  configured : List BindingRegistry

inductive RequestLabel where
  | receive (routeKind : RouteKind) (incoming : Incoming)
  | wake (i : ℕ)
  | body (i : ℕ) (body : Body) (now : ℚ) (session : Bool)
  | respond (i : ℕ) (status : ℕ)
  | timeout (i : ℕ) (prepared : Option ℕ)
  | disconnect (i : ℕ)
  | cancel (i : ℕ)
  | update (update : RegistryUpdate)

namespace Requests

/-- A request continues. -/
def store (s : Requests) (i : ℕ) (result : BrokerProcess × Forward) : Requests :=
  { s with process := result.1, forwards := s.forwards.set i result.2 }

/-- The suspended request with its place. -/
def suspended (s : Requests) (i : ℕ) : Option Forward :=
  s.forwards[i]?.filter fun f => match f.suspension with
    | .running | .ended _ => false
    | _ => true

/-- The request, if it is suspended in reading its body or in the upstream request. -/
def readingBody (s : Requests) (i : ℕ) : Option Forward :=
  s.forwards[i]?.filter fun f => match f.suspension with
    | .bodyRead => true
    | _ => false

def requestingUpstream (s : Requests) (i : ℕ) : Option Forward :=
  s.forwards[i]?.filter fun f => match f.suspension with
    | .upstream => true
    | _ => false

def step (lib : Library) (s : Requests) : RequestLabel → Option Requests
  | .receive routeKind incoming =>
    let f : Forward := { incoming := incoming, routeKind := routeKind }
    some ({ s with forwards := s.forwards ++ [f] }.store s.forwards.length
      (Broker.receive s.process f lib))
  | .wake i => (s.suspended i).map fun f => s.store i (Broker.wake s.process f)
  | .body i body now session =>
    (s.readingBody i).map fun f => s.store i (forwardBody s.process f lib body now session)
  | .respond i status =>
    (s.requestingUpstream i).map fun f => s.store i (finish s.process f (.ok status))
  | .timeout i prepared =>
    (s.suspended i).map fun f => s.store i (Broker.timeout s.process f prepared)
  | .disconnect i => (s.suspended i).map fun f => s.store i (Broker.disconnect s.process f)
  | .cancel i => (s.suspended i).map fun f => s.store i (finish s.process f (.error .cancelled))
  | .update update => match s.process.replace update with
    | .ok process =>
      some { s with
        process := process
        configured := s.configured ++ [process.broker.registry] }
    | .error _ => some s

end Requests

end Soveren.Broker
