import NexusWorkflow.Lib.KeyedMap
import NexusWorkflow.Lib.Processes

/-!
# The workers of the tenants

`TenantWorkerManager` (`worker/TenantWorkerManager.ts`) with the sets of workers that it has created
and the registry that it reads.  What a function of the manager does between two `await`s is one
operation.  A `stopTenant` that has found something to stop goes on by itself, and whoever has
called it waits for it.
-/

namespace NexusWorkflow.Workers

/-! ## State -/

/-- How far a set of workers is: `started` once its `start()` has resolved, `stopping` once `stop()`
has been called. -/
inductive Phase where
  | starting | started | startFailed | stopping | stopped | stopFailed
  deriving DecidableEq

/-- `TenantWorkerSet`. -/
structure WorkerSet where
  tenantId : String
  phase : Phase := .starting
  deriving DecidableEq

/-- Started and not yet stopped. -/
def WorkerSet.isRunning (x : WorkerSet) : Bool := x.phase ∈ [Phase.started, .stopping, .stopFailed]

inductive StopStep where
  | awaitingStart | awaitingStop | finished
  deriving DecidableEq

/-- A call of `stopTenant` that has taken a promise out of the map. -/
structure StopTenant where
  tenantId : String
  /-- The number of the set. -/
  workers : Nat
  step : StopStep := .awaitingStart
  deriving DecidableEq

/-- A call of `remove` or `stop`. -/
inductive Closing where
  /-- With how often the status of the tenant had been changed by then. -/
  | removal (tenantId : String) (changes : Nat)
  | shutdown
  deriving DecidableEq

/-- The manager, the sets of workers that it has created, and the registry of tenants. -/
structure Manager where
  /-- The promise of a tenant, by the number of the set that it is for. -/
  running : KeyedMap (Prod.fst : String × Nat → String) := ∅
  syncing : Bool := false
  stopped : Bool := false
  sets : List WorkerSet := []
  stops : List StopTenant := []
  /-- The tenants that `listActiveTenantIds` finds. -/
  active : List String := []
  /-- Not in the source: the tenants whose status has been changed, one entry for each time. -/
  changes : List String := []
  /-- Not in the source: the calls of `remove` and `stop`. -/
  closings : List Closing := []

/-! ## Operations -/

inductive WorkerError where
  | managerStopped
  | failed
  deriving DecidableEq

/-- What `remove` is waiting for. -/
structure Removal where
  stops : List Nat
  /-- Not in the source: how often the status of the tenant had been changed. -/
  changes : Nat

inductive WorkerOp where
  /-- `ensure` up to its first `await`. -/
  | ensure (tenantId : String)
  /-- The promise of a set is awaited. -/
  | awaitStart (workers : Nat)
  | enterSync
  | listActiveTenantIds
  /-- `ensure` for one tenant after the other, each caught. -/
  | ensureAll (tenantIds : List String)
  | awaitStarts (sets : List Nat)
  /-- `stopTenant` for each other tenant that is running. -/
  | stopOthers (active : List String)
  | awaitStops (stops : List Nat)
  | leaveSync
  | remove (tenantId : String)
  | stop

abbrev WorkerOp.Answer : WorkerOp → Type
  | ensure _ => Nat
  | enterSync => Bool
  | listActiveTenantIds => List String
  | ensureAll _ => List (Option Nat)
  | stopOthers _ | stop => List Nat
  | remove _ => Removal
  | awaitStart _ | awaitStarts _ | awaitStops _ | leaveSync => Unit

namespace Manager

variable (s : Manager)

/-- A set of workers is created, and its `start()` called. -/
def create (tenantId : String) : Manager :=
  { s with sets := s.sets ++ [{ tenantId }], running := s.running.set (tenantId, s.sets.length) }

def ensure (tenantId : String) : List (Manager × Except WorkerError Nat) :=
  if s.stopped then [(s, .error .managerStopped)]
  else
    match s.running.get? tenantId with
    | some (_, workers) => [(s, .ok workers)]
    | none => [(s.create tenantId, .ok s.sets.length), (s, .error .failed)]

def ensureAll (s : Manager) : List String → List (Manager × List (Option Nat))
  | [] => [(s, [])]
  | tenantId :: tenantIds =>
      (s.ensure tenantId).flatMap fun (s', workers) =>
        (s'.ensureAll tenantIds).map fun (s'', rest) => (s'', workers.toOption :: rest)

/-- `stopTenant` for the tenants in question, each up to its first `await`. -/
def stopTenants (p : String → Bool) : Manager × List Nat :=
  let taken := s.running.values.filter (p ·.1)
  ({ s with running := s.running.keep fun e => !p e.1
            stops := s.stops ++ taken.map fun (tenantId, workers) => { tenantId, workers } },
    (List.range taken.length).map (s.stops.length + ·))

def isStarting (workers : Nat) : Bool := s.sets[workers]?.any (·.phase = .starting)

def isFinished (stop : Nat) : Bool := s.stops[stop]?.all (·.step = .finished)

/-- What may come of the operation; it has to wait if there is nothing. -/
def outcomes : (op : WorkerOp) → List (Manager × Except WorkerError op.Answer)
  | .ensure tenantId => s.ensure tenantId
  | .awaitStart workers =>
      if s.isStarting workers then []
      else if s.sets[workers]?.any (·.phase = .startFailed) then [(s, .error .failed)]
      else [(s, .ok ())]
  | .enterSync =>
      if s.syncing || s.stopped then [(s, .ok false)] else [({ s with syncing := true }, .ok true)]
  | .listActiveTenantIds => [(s, .ok s.active), (s, .error .failed)]
  | .ensureAll tenantIds => (s.ensureAll tenantIds).map fun (s', sets) => (s', .ok sets)
  | .awaitStarts sets => if sets.any s.isStarting then [] else [(s, .ok ())]
  | .stopOthers active =>
      [((s.stopTenants (· ∉ active)).1, .ok (s.stopTenants (· ∉ active)).2)]
  | .awaitStops stops => if stops.all s.isFinished then [(s, .ok ())] else []
  | .leaveSync => [({ s with syncing := false }, .ok ())]
  | .remove tenantId =>
      let changes := s.changes.count tenantId
      [({ (s.stopTenants (· = tenantId)).1 with
        closings := s.closings ++ [.removal tenantId changes] },
        .ok { stops := (s.stopTenants (· = tenantId)).2, changes })]
  | .stop =>
      [({ (s.stopTenants fun _ => true).1 with
        stopped := true, closings := s.closings ++ [.shutdown] },
        .ok (s.stopTenants fun _ => true).2)]

/-! ## Events -/

def setPhase (workers : Nat) (phase : Phase) : Manager :=
  { s with sets := s.sets.modify workers fun x => { x with phase } }

def setStep (stop : Nat) (step : StopStep) : Manager :=
  { s with stops := s.stops.modify stop fun y => { y with step } }

/-- The `start()` of a set resolves or rejects. -/
def startSettles (workers : Nat) (succeeds : Bool) : Manager :=
  if s.isStarting workers then s.setPhase workers (if succeeds then .started else .startFailed)
    else s

/-- `starting.catch`: a set that has failed to start is not kept in the map. -/
def forget (workers : Nat) : Manager :=
  match s.sets[workers]? with
  | none => s
  | some x =>
      if x.phase = .startFailed ∧ (s.running.get? x.tenantId).map (·.2) = some workers then
        { s with running := s.running.erase x.tenantId }
      else s

/-- A `stopTenant` goes on once the set has started, or failed to. -/
def resume (stop : Nat) : Manager :=
  match s.stops[stop]? with
  | none => s
  | some y =>
      if y.step = .awaitingStart then
        match s.sets[y.workers]?.map WorkerSet.phase with
        | some .started => (s.setPhase y.workers .stopping).setStep stop .awaitingStop
        | some .startFailed => s.setStep stop .finished
        -- it waits; a set is taken out of the map once, so nobody else stops it
        | _ => s
      else s

/-- The `stop()` of a set resolves or rejects. -/
def stopSettles (stop : Nat) (succeeds : Bool) : Manager :=
  match s.stops[stop]? with
  | none => s
  | some y =>
      if y.step = .awaitingStop then
        (s.setPhase y.workers (if succeeds then .stopped else .stopFailed)).setStep stop .finished
      else s

/-- A tenant is created or re-activated, or it is suspended or deleted. -/
def setActive (tenantId : String) (active : Bool) : Manager :=
  { s with active := if active then s.active ∪ [tenantId] else s.active.filter (· ≠ tenantId)
           changes := s.changes ++ [tenantId] }

end Manager

inductive Event where
  | startSettles (workers : Nat) (succeeds : Bool)
  | forget (workers : Nat)
  | resume (stop : Nat)
  | stopSettles (stop : Nat) (succeeds : Bool)
  | setActive (tenantId : String) (active : Bool)

def Event.apply : Event → Manager → Manager
  | startSettles workers succeeds, s => s.startSettles workers succeeds
  | forget workers, s => s.forget workers
  | resume stop, s => s.resume stop
  | stopSettles stop succeeds, s => s.stopSettles stop succeeds
  | setActive tenantId active, s => s.setActive tenantId active

/-! ## Functions of the manager -/

/-- Which function has resolved. -/
inductive Reply where
  | ensured
  | synced
  | removed (tenantId : String) (changes : Nat)
  | stopped

/-- An asynchronous function on the manager. -/
abbrev Task := Async WorkerOp WorkerOp.Answer WorkerError

def await (op : WorkerOp) : Task op.Answer := Async.await op

def ensure (tenantId : String) : Task Reply := do
  let workers ← await (.ensure tenantId)
  await (.awaitStart workers)
  return .ensured

def sync : Task Reply := do
  if ← await .enterSync then do
    let result ← (tryCatch (do
        let active := (← await .listActiveTenantIds).dedup
        let sets ← await (.ensureAll active)
        await (.awaitStarts sets.reduceOption)
        let stops ← await (.stopOthers active)
        await (.awaitStops stops)
        return .ok ())
      fun e => return .error e : Task (Except WorkerError Unit))
    await .leaveSync
    match result with
    | .ok () => return .synced
    | .error e => throw e
  else return .synced

def remove (tenantId : String) : Task Reply := do
  let removal ← await (.remove tenantId)
  await (.awaitStops removal.stops)
  return .removed tenantId removal.changes

def stop : Task Reply := do
  let stops ← await .stop
  await (.awaitStops stops)
  return .stopped

/-- A call of the manager: `ensure` for a request, `sync` at the start and whenever the timer goes
off, `remove` when a tenant has been suspended or is being deleted, and `stop` at the end. -/
inductive WorkerCall where
  | ensure (tenantId : String)
  | sync
  | remove (tenantId : String)
  | stop

/-- A call under way. -/
abbrev WorkerProcess := Process WorkerOp WorkerOp.Answer WorkerError (Except WorkerError Reply)

def WorkerCall.program : WorkerCall → WorkerProcess
  | ensure tenantId => (Workers.ensure tenantId).run
  | sync => Workers.sync.run
  | remove tenantId => (Workers.remove tenantId).run
  | stop => Workers.stop.run

/-- The manager and the calls under way. -/
abbrev Workshop := World Manager WorkerOp WorkerOp.Answer WorkerError (Except WorkerError Reply)

end NexusWorkflow.Workers
