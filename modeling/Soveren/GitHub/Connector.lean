import Soveren.Relational.Run
import Soveren.Async.Flights
import Soveren.GitHub.Reads

/-! The GitHub connector: its pins, its snapshots and the calls that run on it. A step is what one
task does from one suspension to the next. A pin is read by a task of its own that the callers of
its key share. -/
namespace Soveren.GitHub
open Soveren.Process Soveren.Async Soveren.Run Soveren.Conversation

/-- A pin cache with the reads of its keys; `loads` are the programs of the reads. -/
structure PinTable (κ τ : Type) where
  cache : κ → Option τ := fun _ => none
  flights : Flights κ Failure τ := {}
  loads : List (Proc Op Res (Except Failure τ)) := []

structure Connector where
  access : GitHubAccess
  closed : Bool := false
  refs : PinTable RefKey GitHubSnapshot := {}
  pulls : PinTable PullKey PullSnapshot := {}
  snapshots : String × String → Option GitHubSnapshot := fun _ => none
  ancestry : List (String × String × String) := []
  inflight : ℕ := 0

/-- The cancellation of a waiter of a connector that was closed is an error of the connector. -/
def raisedWhileWaiting (closed : Bool) : Failure → Failure
  | .cancelled => if closed then .github .closed else .cancelled
  | .github code => .github code

section Pin

variable {κ τ : Type} [DecidableEq κ] (table : PinTable κ τ) (closed : Bool)

/-- The loop of `_pin` up to a suspension or its result. -/
def PinTable.pin (key : κ) (fetch : Program τ) : PinTable κ τ × Wait Failure τ :=
  if closed then (table, .returned (.error (.github .closed)))
  else match table.cache key with
    | some value => (table, .returned (.ok value))
    | none =>
      let (flights, wait) := table.flights.arrive key
      let loads := if (table.flights.current key).isNone then table.loads ++ [fetch.run] else table.loads
      ({ table with flights := flights, loads := loads }, wait)

def Flights.isDone (f : Flights κ Failure τ) (r : ℕ) : Bool := f.tasks[r]?.any (·.outcome.isSome)

/-- What a suspended caller does when the task that it awaits has ended. -/
def PinTable.wake (key : κ) (fetch : Program τ) : Wait Failure τ →
    Option (PinTable κ τ × Wait Failure τ)
  | .waiting r => (table.flights.tasks[r]?.bind (·.outcome)).map fun outcome =>
    let (flights, wait) := table.flights.take r (outcome.mapError (raisedWhileWaiting closed))
    ({ table with flights := flights }, wait)
  | .draining r cancelled =>
    if Flights.isDone table.flights r then
      if cancelled then some (table, .returned (.error .cancelled))
      else some (table.pin closed key fetch)
    else none
  | .leaving r failure =>
    if Flights.isDone table.flights r then some (table, .returned (.error failure)) else none
  | .returned _ => none

/-- The cancellation of a suspended caller. One that waits for the end of a task passes it on to
the task and keeps waiting. -/
def PinTable.cancel : Wait Failure τ → Option (PinTable κ τ × Wait Failure τ)
  | .waiting r =>
    let (flights, wait) := table.flights.leave r (raisedWhileWaiting closed .cancelled)
    some ({ table with flights := flights }, wait)
  | .draining r _ => some ({ table with flights := table.flights.cancel r }, .draining r true)
  | .leaving r _ => some ({ table with flights := table.flights.cancel r }, .leaving r .cancelled)
  | .returned _ => none

/-- `load` after its fetch. -/
def PinTable.loaded (r : ℕ) (key : κ) (outcome : Except Failure τ) : PinTable κ τ :=
  match outcome with
  | .error e => { table with flights := table.flights.settle r (.error e) }
  | .ok value =>
    if closed then { table with flights := table.flights.settle r (.error (.github .closed)) }
    else { table with
      cache := Function.update table.cache key (some value)
      flights := table.flights.settle r (.ok value) }

/-- The callback of a read that has ended. -/
def PinTable.finished (r : ℕ) : PinTable κ τ := { table with flights := table.flights.clear r }

/-- The cache is dropped and every read that is under way is cancelled. -/
def PinTable.revoke : PinTable κ τ :=
  { table with
    cache := fun _ => none
    flights := table.flights.cancelAll }

end Pin

/-- Where a program is suspended. -/
inductive Suspended where
  | request
  | ref (wait : Wait Failure GitHubSnapshot)
  | pull (wait : Wait Failure PullSnapshot)

def Connector.refFetch (key : RefKey) : Program GitHubSnapshot := snapshot key.1 key.2

def Connector.pullFetch (lib : Library) (key : PullKey) (grant : Option GitHubRepositoryAccess) :
    Program PullSnapshot :=
  pullSnapshot lib key.repository key.number grant key.anchor key.baseAnchor

/-- The result of a wait that is over, or the suspension. -/
def Connector.refResult : Wait Failure GitHubSnapshot → Except Failure GitHubSnapshot ⊕ Suspended
  | .returned result => .inl result
  | wait => .inr (.ref wait)

def Connector.pullResult : Wait Failure PullSnapshot → Except Failure PullSnapshot ⊕ Suspended
  | .returned result => .inl result
  | wait => .inr (.pull wait)

namespace Connector

variable (c : Connector) (lib : Library)

/-- An operation of a program: its result, or where it is suspended. -/
def perform : (o : Op) → Connector × (Res o ⊕ Suspended)
  | .get _ => (c, .inr .request)
  | .pinRef key =>
    let (table, wait) := c.refs.pin c.closed key (refFetch key)
    ({ c with refs := table }, refResult wait)
  | .pinPull key grant =>
    let (table, wait) := c.pulls.pin c.closed key (pullFetch lib key grant)
    ({ c with pulls := table }, pullResult wait)
  | .knownSnapshot repository commit => match c.snapshots (repository, commit) with
    | some snap => (c, .inl (.ok snap))
    | none => (c, .inl (.error (.github .denied)))
  | .hasSnapshot repository commit => (c, .inl (.ok (c.snapshots (repository, commit)).isSome))
  | .isProven repository target anchor =>
    (c, .inl (.ok (c.ancestry.contains (repository, target, anchor))))
  | .storeSnapshot snap =>
    if c.closed then (c, .inl (.error (.github .closed)))
    else
      let snapshots := Function.update c.snapshots (snap.repository, snap.commit) (some snap)
      ({ c with snapshots := snapshots }, .inl (.ok ()))
  | .storeAncestor snap anchor =>
    if c.closed then (c, .inl (.error (.github .closed)))
    else
      let snapshots := Function.update c.snapshots (snap.repository, snap.commit) (some snap)
      ({ c with
         snapshots := snapshots
         ancestry := c.ancestry ++ [(snap.repository, snap.commit, anchor)] }, .inl (.ok ()))

/-- A program runs until it is suspended or returns. -/
def run {α : Type} (c : Connector) : Proc Op Res α → Connector × Proc Op Res α × Option Suspended
  | .ret a => (c, .ret a, none)
  | .call o k => match c.perform lib o with
    | (c', .inl r) => run c' (k r)
    | (c', .inr suspended) => (c', .call o k, some suspended)

end Connector

/-- An `execute` call. `cancelRequested` records that it was cancelled or timed out. -/
structure Call where
  operation : Operation
  grant : GitHubRepositoryAccess
  program : Proc Op Res (Except Failure ReadResult)
  suspended : Option Suspended := none
  timedOut : Bool := false
  cancelRequested : Bool := false
  outcome : Option (Except Failure ReadResult) := none

/-- What `execute` makes of the result of its operation. -/
def Call.concluded (call : Call) (closed : Bool) : Except Failure ReadResult →
    Except Failure ReadResult
  | .ok r => if closed then .error (.github .closed) else .ok r
  | .error .cancelled => if call.timedOut then .error (.github .timeout) else .error .cancelled
  | .error (.github code) => .error (.github code)

/-- The pin that the outcome of a call shows. -/
def Call.shows (call : Call) : Except Failure ReadResult → List (RefKey × GitHubSnapshot)
  | .ok (.ref ref snap) => [((call.grant.repository, ref), snap)]
  | _ => []

/-- The connector with its calls. The logs record the pins of refs that were stored, those that
were observed, and what the provider reported of pull requests. -/
structure System where
  connector : Connector
  calls : List Call := []
  pinned : List (RefKey × GitHubSnapshot) := []
  observed : List (RefKey × GitHubSnapshot) := []
  reported : List (String × Int × String × String) := []

namespace System

variable (s : System) (lib : Library)

/-- The end of `execute`. -/
def conclude (i : ℕ) (call : Call) (result : Except Failure ReadResult) : System :=
  let outcome := call.concluded s.connector.closed result
  { s with
    connector := { s.connector with inflight := s.connector.inflight - 1 }
    calls := s.calls.set i
      { call with program := .ret result, suspended := none, outcome := some outcome }
    observed := s.observed ++ call.shows outcome }

/-- A call goes on with a program. -/
def continueCall (i : ℕ) (call : Call) (program : Proc Op Res (Except Failure ReadResult)) : System :=
  match s.connector.run lib program with
  | (c, .ret result, none) => { s with connector := c }.conclude i call result
  | (c, program, suspended) =>
    { s with
      connector := c
      calls := s.calls.set i { call with program := program, suspended := suspended } }

def authorize (scope : Scope) (operation : Operation) (repository : Option Json) :
    Except GitHubErrorCode GitHubRepositoryAccess :=
  if scope ≠ s.connector.access.conversation then raise .denied
  else if s.connector.closed then raise .closed
  else match s.connector.access.repositories.find? fun grant =>
      repository = some (.str grant.repository) && grant.operations.contains operation with
    | some grant => .ok grant
    | none => raise .denied

/-- `execute` up to its first suspension; a call that is not admitted leaves nothing. -/
def execute (scope : Scope) (operation : Operation) (args : Json) : System :=
  match s.authorize scope operation (args.get? "repository") with
  | .error _ => s
  | .ok grant =>
    if 8 ≤ s.connector.inflight then s
    else
      let program := (executeOperation lib grant operation args).run
      let call : Call := ⟨operation, grant, program, none, false, false, none⟩
      let s' : System := { s with
        connector := { s.connector with inflight := s.connector.inflight + 1 }
        calls := s.calls ++ [call] }
      s'.continueCall lib s.calls.length call program

/-- The first grant of a repository, if it has the ref and lets it be read. -/
def pinGrant (scope : Scope) (repository ref : String) :
    Except GitHubErrorCode GitHubRepositoryAccess :=
  if s.connector.closed then raise .closed
  else if scope ≠ s.connector.access.conversation then raise .denied
  else match s.connector.access.repositories.find? fun grant => grant.repository = repository with
    | none => raise .denied
    | some grant =>
      if !grant.refs.contains ref || !(grant.operations.any fun o => List.contains [Operation.listTree,
          .readFile, .listCommits, .readCommit, .compareCommits, .readPullRequest] o) then raise .denied
      else .ok grant

def restoreSnapshot (scope : Scope) (repository ref : String) (snap : GitHubSnapshot) :
    Except GitHubErrorCode System := do
  let _ ← s.pinGrant scope repository ref
  require (snap.repository = repository && isSha snap.commit && isSha snap.tree) .denied
  require ((s.connector.refs.cache (repository, ref)).all (· = snap)) .denied
  require ((s.connector.snapshots (repository, snap.commit)).all (· = snap)) .protocol
  let refs := { s.connector.refs with
    cache := Function.update s.connector.refs.cache (repository, ref) (some snap) }
  let snapshots := Function.update s.connector.snapshots (repository, snap.commit) (some snap)
  .ok { s with
    connector := { s.connector with refs := refs, snapshots := snapshots }
    pinned := s.pinned ++ [((repository, ref), snap)]
    observed := s.observed ++ [((repository, ref), snap)] }

def getRefSnapshot (scope : Scope) (repository ref : String) :
    Except GitHubErrorCode (Option GitHubSnapshot) := do
  let _ ← s.pinGrant scope repository ref
  .ok (s.connector.refs.cache (repository, ref))

def revoke : System :=
  { s with
    connector := { s.connector with
      closed := true
      refs := s.connector.refs.revoke
      pulls := s.connector.pulls.revoke
      snapshots := fun _ => none
      ancestry := [] } }

/-- What the provider has reported of a pull request. -/
def report (endpoint : Endpoint) (result : Except Failure Json) : List (String × Int × String × String) :=
  match endpoint, result with
  | .pull repository pullNumber, .ok data =>
    match (data.get? "base").bind (·.get? "sha"), (data.get? "head").bind (·.get? "sha") with
    | some (.str base), some (.str head) => s.reported ++ [(repository, pullNumber, base, head)]
    | _, _ => s.reported
  | _, _ => s.reported

end System

inductive Label where
  | execute (scope : Scope) (operation : Operation) (args : Json)
  | answer (i : ℕ) (result : Except Failure Json)
  | wake (i : ℕ)
  | cancel (i : ℕ) (timeout : Bool)
  | refAnswer (r : ℕ) (result : Except Failure Json)
  | pullAnswer (r : ℕ) (result : Except Failure Json)
  | refFinished (r : ℕ)
  | pullFinished (r : ℕ)
  | restoreSnapshot (scope : Scope) (repository ref : String) (snap : GitHubSnapshot)
  | getRefSnapshot (scope : Scope) (repository ref : String)
  | closeTransport
  | revoke

namespace System

variable (lib : Library)

/-- A request of a program is answered. Only a task that is being cancelled sees a cancelled
request. -/
def answer (s : System) (i : ℕ) (result : Except Failure Json) : Option System :=
  match s.calls[i]? with
  | some call => match call.program, call.suspended with
    | .call (.get endpoint) k, some .request =>
      if result = .error .cancelled then none
      else some ({ s with reported := s.report endpoint result }.continueCall lib i call (k result))
    | _, _ => none
  | none => none

/-- A call whose wait for the pin of a ref went on. -/
def refMoved (s : System) (i : ℕ) (call : Call)
    (k : Except Failure GitHubSnapshot → Proc Op Res (Except Failure ReadResult))
    (table : PinTable RefKey GitHubSnapshot) (wait : Wait Failure GitHubSnapshot) : System :=
  let s' : System := { s with connector := { s.connector with refs := table } }
  match Connector.refResult wait with
  | .inl result => s'.continueCall lib i call (k result)
  | .inr suspended => { s' with calls := s.calls.set i { call with suspended := some suspended } }

def pullMoved (s : System) (i : ℕ) (call : Call)
    (k : Except Failure PullSnapshot → Proc Op Res (Except Failure ReadResult))
    (table : PinTable PullKey PullSnapshot) (wait : Wait Failure PullSnapshot) : System :=
  let s' : System := { s with connector := { s.connector with pulls := table } }
  match Connector.pullResult wait with
  | .inl result => s'.continueCall lib i call (k result)
  | .inr suspended => { s' with calls := s.calls.set i { call with suspended := some suspended } }

def wake (s : System) (i : ℕ) : Option System :=
  match s.calls[i]? with
  | some call => match call.program, call.suspended with
    | .call (.pinRef key) k, some (.ref wait) =>
      (s.connector.refs.wake s.connector.closed key (Connector.refFetch key) wait).map
        fun (table, wait) => s.refMoved lib i call k table wait
    | .call (.pinPull key grant) k, some (.pull wait) =>
      (s.connector.pulls.wake s.connector.closed key (Connector.pullFetch lib key grant) wait).map
        fun (table, wait) => s.pullMoved lib i call k table wait
    | _, _ => none
  | none => none

def cancel (s : System) (i : ℕ) (timeout : Bool) : Option System :=
  match s.calls[i]? with
  | some call =>
    let call := { call with timedOut := call.timedOut || timeout, cancelRequested := true }
    match call.program, call.suspended with
    | .call (.get _) k, some .request => some (s.continueCall lib i call (k (.error .cancelled)))
    | .call (.pinRef _) k, some (.ref wait) =>
      (s.connector.refs.cancel s.connector.closed wait).map
        fun (table, wait) => s.refMoved lib i call k table wait
    | .call (.pinPull _ _) k, some (.pull wait) =>
      (s.connector.pulls.cancel s.connector.closed wait).map
        fun (table, wait) => s.pullMoved lib i call k table wait
    | _, _ => none
  | none => none

/-- A request of a read of a ref is answered. -/
def refAnswer (s : System) (r : ℕ) (result : Except Failure Json) : Option System :=
  match s.connector.refs.flights.tasks[r]?, s.connector.refs.loads[r]? with
  | some task, some (.call (.get endpoint) k) =>
    if task.outcome.isSome || (result = .error .cancelled && !task.cancelling) then none
    else
      let s' : System := { s with reported := s.report endpoint result }
      match s'.connector.run lib (k result) with
      | (c, .ret outcome, none) =>
        let pinned := match outcome with
          | .ok snap => if c.closed then s.pinned else s.pinned ++ [(task.key, snap)]
          | .error _ => s.pinned
        some { s' with
          connector := { c with refs := c.refs.loaded c.closed r task.key outcome }
          pinned := pinned }
      | (c, program, _) =>
        let table := { c.refs with loads := c.refs.loads.set r program }
        some { s' with connector := { c with refs := table } }
  | _, _ => none

def pullAnswer (s : System) (r : ℕ) (result : Except Failure Json) : Option System :=
  match s.connector.pulls.flights.tasks[r]?, s.connector.pulls.loads[r]? with
  | some task, some (.call (.get endpoint) k) =>
    if task.outcome.isSome || (result = .error .cancelled && !task.cancelling) then none
    else
      let s' : System := { s with reported := s.report endpoint result }
      match s'.connector.run lib (k result) with
      | (c, .ret outcome, none) =>
        some { s' with connector := { c with pulls := c.pulls.loaded c.closed r task.key outcome } }
      | (c, program, _) =>
        let table := { c.pulls with loads := c.pulls.loads.set r program }
        some { s' with connector := { c with pulls := table } }
  | _, _ => none

def step (s : System) : Label → Option System
  | .execute scope operation args => some (s.execute lib scope operation args)
  | .answer i result => s.answer lib i result
  | .wake i => s.wake lib i
  | .cancel i timeout => s.cancel lib i timeout
  | .refAnswer r result => s.refAnswer lib r result
  | .pullAnswer r result => s.pullAnswer lib r result
  | .refFinished r =>
    if Flights.isDone s.connector.refs.flights r then
      some { s with connector := { s.connector with refs := s.connector.refs.finished r } }
    else none
  | .pullFinished r =>
    if Flights.isDone s.connector.pulls.flights r then
      some { s with connector := { s.connector with pulls := s.connector.pulls.finished r } }
    else none
  | .restoreSnapshot scope repository ref snap =>
    match s.restoreSnapshot scope repository ref snap with
    | .ok t => some t
    | .error _ => some s
  | .getRefSnapshot scope repository ref =>
    match s.getRefSnapshot scope repository ref with
    | .ok (some snap) => some { s with observed := s.observed ++ [((repository, ref), snap)] }
    | _ => some s
  | .closeTransport => some { s with connector := { s.connector with closed := true } }
  | .revoke => some s.revoke

end System

end Soveren.GitHub
