import NexusWorkflow.Lib.Machines
import NexusWorkflow.Model.Tenants

/-!
# The hub of the events

`TenantEventHub` with the buses of the tenants (`events/TenantEventHub.ts`) and the event logs
(`db/EventLog.ts`), which the application subscribes before anything else.  `for … of` runs over the
array that `handlers` is when the event is published: `subscribeAll` pushes to that array,
`unsubscribe` puts another one in its place.  Between two `await`s a call of `publishMany` waits for
one handler, and anything may happen meanwhile.
-/

namespace NexusWorkflow.EventHub

open Tenancy (validTenantId)

/-- An `ExecutionEvent`, as far as the hub and the logs read it. -/
structure Event where
  type : String
  instanceId : Option String := none
  deriving DecidableEq

/-! ## Subscriptions -/

/-- `subscribeAll`, and `subscribe` and `subscribeToType` of the bus of a tenant. -/
inductive Scope where
  | all
  | tenant (tenantId : String)
  | type (tenantId type : String)
  deriving DecidableEq

/-- The handler is called with the event. -/
def Scope.concerns : Scope → String → Event → Bool
  | all, _, _ => true
  | tenant own, tenantId, _ => tenantId = own
  | type own name, tenantId, event => tenantId = own ∧ event.type = name

/-- A function, as `!==` tells it from others: the one that was given, or one that was made for the
subscription. -/
inductive Handler where
  | given (f : Nat)
  | wrapper (subscription : Nat)
  deriving DecidableEq

structure Subscription where
  /-- Not in the source: how many subscriptions were made before this one. -/
  id : Nat
  handler : Handler
  scope : Scope
  deriving DecidableEq

/-- The subscription of the event logs. -/
def logSubscription : Subscription := { id := 0, handler := .wrapper 0, scope := .all }

structure Hub where
  /-- The arrays that `handlers` was before. -/
  replaced : List (List Subscription) := []
  handlers : List Subscription := [logSubscription]

namespace Hub

variable (hub : Hub)

/-- The array that a loop runs over. -/
def array (a : Nat) : List Subscription := (hub.replaced ++ [hub.handlers])[a]?.getD []

def subscribeAll (subscription : Subscription) : Hub :=
  { hub with handlers := hub.handlers ++ [subscription] }

def unsubscribe (subscription : Subscription) : Hub where
  replaced := hub.replaced ++ [hub.handlers]
  handlers := hub.handlers.filter (·.handler ≠ subscription.handler)

end Hub

/-! ## Event logs -/

inductive InsertState where
  | underWay | inserted | failed
  deriving DecidableEq

/-- An event that has been appended to the log of its tenant. -/
structure LogRow where
  tenantId : String
  event : Event
  occurredAt : Time
  /-- What has become of the `INSERT`, which is not awaited. -/
  state : InsertState := .underWay
  deriving DecidableEq

def LogRow.about (tenantId instanceId : String) (row : LogRow) : Bool :=
  row.tenantId = tenantId ∧ row.event.instanceId = some instanceId

/-- `getForInstance` of `InMemoryEventLog`, whose `append` does not wait for anything. -/
def InMemoryEventLog.getForInstance (log : List LogRow) (tenantId instanceId : String) :
    List LogRow :=
  log.filter (·.about tenantId instanceId)

/-- What `getForInstance` of `PostgresEventLog` may return: the rows that are inserted, by their
times. -/
structure PostgresEventLog.Lists (log : List LogRow) (tenantId instanceId : String)
    (rows : List LogRow) : Prop where
  same : rows.Perm (log.filter fun row => row.about tenantId instanceId ∧ row.state = .inserted)
  sorted : rows.Pairwise fun row later => row.occurredAt ≤ later.occurredAt

/-! ## State -/

/-- Where a call of `publishMany` is. -/
inductive Stage where
  | between
  /-- A handler has been called and is awaited. -/
  | delivering (array i : Nat)
  | ended
  deriving DecidableEq

/-- A call of `publishMany`. -/
structure Publication where
  tenantId : String
  events : List Event
  next : Nat := 0
  stage : Stage := .between
  /-- Not in the source: who was subscribed when `publishMany` was called. -/
  subscribed : List Subscription
  /-- Not in the source: who was subscribed when an event was published; for one that never was, who
  was subscribed all the time. -/
  audiences : List (List Subscription) := []
  /-- Not in the source: which handlers have been called with which events. -/
  received : List (Subscription × Nat) := []

structure Bus where
  hub : Hub := {}
  subscriptions : List Subscription := [logSubscription]
  /-- Not in the source: the subscriptions that have not been ended by their owners. -/
  live : List Subscription := [logSubscription]
  calls : List Publication := []
  now : Time := 0
  log : List LogRow := []
  /-- Not in the source: the events, in the order in which they were published. -/
  published : List (String × Event) := []

/-! ## Steps -/

namespace Bus

variable (s : Bus)

def setCall (c : Nat) (p : Publication) : Bus := { s with calls := s.calls.set c p }

/-- `append` of the log of the tenant. -/
def append (tenantId : String) (event : Event) : Bus :=
  { s with log := s.log ++ [{ tenantId, event, occurredAt := s.now }] }

/-- The loop of `publish` comes to the `i`-th handler of the array, if there is one. -/
def visit (c : Nat) (p : Publication) (event : Event) (array i : Nat) : Bus :=
  match (s.hub.array array)[i]? with
  | none => s.setCall c { p with stage := .between, next := p.next + 1 }
  | some subscription =>
    let called := if subscription = logSubscription then s.append p.tenantId event else s
    called.setCall c { p with
      stage := .delivering array i
      received :=
        if subscription.scope.concerns p.tenantId event then
          p.received ++ [(subscription, p.next)]
        else p.received }

/-- `publish` is called. -/
def publish (c : Nat) (p : Publication) (event : Event) : Bus :=
  { s with published := s.published ++ [(p.tenantId, event)] }.visit c
    { p with audiences := p.audiences ++ [s.live] } event s.hub.replaced.length 0

/-- What the call waits for has resolved. -/
def proceed (c : Nat) : Option Bus :=
  match s.calls[c]? with
  | none => none
  | some p =>
    match p.stage, p.events[p.next]? with
    | .ended, _ => none
    | .between, none => some (s.setCall c { p with stage := .ended })
    | .between, some event => some (s.publish c p event)
    | .delivering _ _, none => none
    | .delivering array i, some event => some (s.visit c p event array (i + 1))

/-- The handler that the call waits for throws, or rejects. -/
def throws (c : Nat) : Option Bus :=
  match s.calls[c]? with
  | none => none
  | some p =>
    match p.stage, p.events[p.next]? with
    | .delivering array i, some event =>
      match (s.hub.array array)[i]? with
      | none => none
      | some subscription =>
        -- the errors of the log are caught, and a wrapper throws only what its handler does
        if subscription ≠ logSubscription ∧ subscription.scope.concerns p.tenantId event then
          some (s.setCall c { p with
            stage := .ended
            audiences := p.audiences ++ List.replicate (p.events.length - p.audiences.length)
              (p.subscribed.filter (· ∈ s.live)) })
        else none
    | _, _ => none

def subscribe (scope : Scope) (f : Nat) : Bus :=
  let subscription : Subscription :=
    { id := s.subscriptions.length
      handler := if scope = .all then .given f else .wrapper s.subscriptions.length
      scope }
  { s with
    hub := s.hub.subscribeAll subscription
    subscriptions := s.subscriptions ++ [subscription]
    live := s.live ++ [subscription] }

def unsubscribe (subscription : Subscription) : Bus :=
  { s with hub := s.hub.unsubscribe subscription, live := s.live.filter (· ≠ subscription) }

def setRow (j : Nat) (state : InsertState) : Option Bus :=
  match s.log[j]? with
  | none => none
  | some row =>
    if row.state = .underWay then some { s with log := s.log.set j { row with state } } else none

end Bus

/-- `busFor`. -/
def Scope.valid : Scope → Bool
  | all => true
  | tenant tenantId | type tenantId _ => validTenantId tenantId

inductive Happening where
  | subscribe (scope : Scope) (f : Nat)
  /-- The function that the subscription returned is called; the application does not keep that of
  the logs. -/
  | unsubscribe (id : Nat)
  | publishMany (tenantId : String) (events : List Event)
  | proceed (c : Nat)
  | throws (c : Nat)
  | clock (now : Time)
  | inserted (j : Nat)
  | insertFails (j : Nat)

def Bus.step (s : Bus) : Happening → Option Bus
  | .subscribe scope f => if scope.valid then some (s.subscribe scope f) else none
  | .unsubscribe id =>
    match s.subscriptions[id]? with
    | none => none
    | some subscription =>
        if subscription = logSubscription then none else some (s.unsubscribe subscription)
  | .publishMany tenantId events =>
      if validTenantId tenantId then
        some { s with calls := s.calls ++ [{ tenantId, events, subscribed := s.live }] }
      else none
  | .proceed c => s.proceed c
  | .throws c => s.throws c
  | .clock now => some { s with now }
  | .inserted j => s.setRow j .inserted
  | .insertFails j => s.setRow j .failed

end NexusWorkflow.EventHub
