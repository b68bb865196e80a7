import NexusWorkflow.Lib.Machines
import NexusWorkflow.Model.Types

/-!
# The consumer of the workflow events

The consumer of the ERP (`nexus-erp/src/lib/redisConsumer.ts`) between the stream of Redis, with its
consumer group, and the requests of the employees in the database.  Between two `await`s the
consumer waits for one call of Redis or of the database; what comes of the call, and what happens
meanwhile, is up to the surroundings.
-/

namespace NexusWorkflow.StreamConsumer

open Machine (Outcome)

/-! ## Entries -/

/-- `WorkflowEvent`; what is no string is no field of an event. -/
structure WorkflowEvent where
  type : String
  instanceId : Option String := none
  restartedFromId : Option String := none
  deriving DecidableEq

inductive ParseError where
  | syntaxError
  deriving DecidableEq

/-- `JSON.parse`; nothing is one of the values that count as false in a condition. -/
abbrev JsonParse := String → Except ParseError (Option WorkflowEvent)

/-- `parseStreamEntry`. -/
def parseStreamEntry (parse : JsonParse) (fields : List String) (tenantId : String) :
    Except ParseError (Option WorkflowEvent) :=
  match fields.idxOf? "tenantId" with
  | none => .ok none
  | some tenantIdx =>
    if fields[tenantIdx + 1]? ≠ some tenantId then .ok none
    else
      match fields.idxOf? "data" with
      | none => .ok none
      | some dataIdx =>
        match fields[dataIdx + 1]? with
        -- `JSON.parse(undefined)`
        | none => .error .syntaxError
        | some data => parse data

/-- An entry of the stream: fields and their values. -/
structure StreamEntry where
  id : Nat
  fields : List (String × String)
  deriving DecidableEq

/-- The array in which the client returns the fields of an entry. -/
def flatten (fields : List (String × String)) : List String :=
  fields.flatMap fun (name, value) => [name, value]

/-! ## The requests of the employees -/

inductive RequestStatus where
  | PENDING | APPROVED | DENIED | CANCELLED
  deriving DecidableEq

/-- A row of `employee_profile_update_requests`, as far as the consumer knows it. -/
structure ProfileUpdateRequest where
  id : String
  status : RequestStatus := .PENDING
  workflowInstanceId : Option String := none
  deriving DecidableEq

abbrev Table := List ProfileUpdateRequest

/-- `updateMany`. -/
def Table.updateMany (table : Table) (where_ : ProfileUpdateRequest → Bool)
    (data : ProfileUpdateRequest → ProfileUpdateRequest) : Table :=
  table.map fun request => if where_ request then data request else request

/-- The call of the database that `handleEvent` makes, if it makes one: an event is of one type
only. -/
def handleEvent (event : WorkflowEvent) : Option (Table → Table) :=
  if event.type = "ProcessInstanceTerminated" then
    (truthy event.instanceId).map fun instanceId table =>
      table.updateMany (fun r => r.workflowInstanceId = some instanceId ∧ r.status = .PENDING)
        fun r => { r with status := .CANCELLED }
  else if event.type = "ProcessInstanceRestarted" then
    match truthy event.instanceId, truthy event.restartedFromId with
    | some instanceId, some restartedFromId =>
      some fun table =>
        table.updateMany (fun r => r.workflowInstanceId = some restartedFromId)
          fun r => { r with workflowInstanceId := some instanceId, status := .PENDING }
    | _, _ => none
  else none

/-- `handleEvent` when it is not disturbed. -/
def handle (event : WorkflowEvent) (table : Table) : Table :=
  match handleEvent event with
  | none => table
  | some update => update table

/-! ## State -/

/-- `processPending` and the loop of `startRedisConsumer`. -/
inductive Pass where
  | pending | live
  deriving DecidableEq

/-- What the consumer waits for. -/
inductive Phase where
  /-- The process is not running. -/
  | down
  | ensureGroup
  | reading (pass : Pass)
  | handling (pass : Pass) (entry : StreamEntry) (rest : List StreamEntry)
  /-- `xack`; `missed` says that the call of the database before it had failed. -/
  | acking (pass : Pass) (entry : StreamEntry) (missed : Bool) (rest : List StreamEntry)
  /-- `startRedisConsumer` has been rejected; the process goes on without it. -/
  | rejected
  deriving DecidableEq

structure Consumer where
  table : Table := []
  stream : List StreamEntry := []
  /-- How many entries the group has delivered. -/
  delivered : Nat := 0
  /-- The entries that are delivered and not acknowledged. -/
  pending : List StreamEntry := []
  phase : Phase := .down
  /-- Not in the source: the entries that have been acknowledged. -/
  acked : List StreamEntry := []
  /-- Not in the source: the entries whose handling took effect. -/
  handled : List StreamEntry := []
  /-- Not in the source: the entries that were delivered and not acknowledged when the process was
  started last. -/
  toRecover : List StreamEntry := []
  /-- Not in the source: the entries whose handling took effect since then. -/
  handledSince : List StreamEntry := []

/-! ## Steps -/

namespace Consumer

variable (s : Consumer)

/-- The rest of the loop over the entries. -/
def serve (pass : Pass) : List StreamEntry → Consumer
  | [] => { s with phase := .reading .live }
  | entry :: rest => { s with phase := .handling pass entry rest }

/-- An error of Redis: `processPending` does not catch it, the loop does. -/
def error : Pass → Consumer
  | .pending => { s with phase := .rejected }
  | .live => { s with phase := .reading .live }

/-- The group delivers the next entries. -/
def deliver (entries : List StreamEntry) : Consumer :=
  { s with delivered := s.delivered + entries.length, pending := s.pending ++ entries }

def acknowledge (entry : StreamEntry) : Consumer :=
  { s with pending := s.pending.filter (·.id ≠ entry.id), acked := s.acked ++ [entry] }

def handle (entry : StreamEntry) (update : Table → Table) : Consumer :=
  { s with
    table := update s.table
    handled := s.handled ++ [entry]
    handledSince := s.handledSince ++ [entry] }

variable (parse : JsonParse) (tenantId : String)

/-- The `try` block of an entry. -/
def handleEntry (pass : Pass) (entry : StreamEntry) (rest : List StreamEntry) (outcome : Outcome) :
    Option Consumer :=
  match parseStreamEntry parse (flatten entry.fields) tenantId with
  -- the error is caught, and no one waits for a call
  | .error _ =>
      if outcome = .ok then some { s with phase := .acking pass entry false rest } else none
  | .ok none =>
      if outcome = .ok then some { s with phase := .acking pass entry false rest } else none
  | .ok (some event) =>
    match handleEvent event, outcome with
    | none, .ok => some { s.handle entry id with phase := .acking pass entry false rest }
    | none, _ => none
    | some _, .failed => some { s with phase := .acking pass entry true rest }
    | some update, _ => some { s.handle entry update with phase := .acking pass entry false rest }

/-- The call that the consumer waits for is over. -/
def call (outcome : Outcome) : Option Consumer :=
  match s.phase with
  | .down | .rejected => none
  | .ensureGroup =>
    match outcome with
    | .ok => some { s with phase := .reading .pending }
    | _ => some { s with phase := .rejected }
  | .reading .pending =>
    match outcome with
    | .ok => some (s.serve .pending (s.pending.take 100))
    | _ => some { s with phase := .rejected }
  | .reading .live =>
    let entries := (s.stream.drop s.delivered).take 10
    match outcome with
    | .ok => some ((s.deliver entries).serve .live entries)
    | .failed => some s
    | .lost => some (s.deliver entries)
  | .handling pass entry rest => s.handleEntry parse tenantId pass entry rest outcome
  | .acking pass entry _ rest =>
    match outcome with
    | .ok => some ((s.acknowledge entry).serve pass rest)
    | .failed => some (s.error pass)
    | .lost => some ((s.acknowledge entry).error pass)

end Consumer

inductive Happening where
  /-- The workflow engine adds an entry to the stream. -/
  | add (fields : List (String × String))
  /-- Other parts of the ERP change the table. -/
  | change (table : Table)
  /-- The process is started, and it starts the consumer. -/
  | start
  | crash
  | call (outcome : Outcome)

def Consumer.step (parse : JsonParse) (tenantId : String) (s : Consumer) :
    Happening → Option Consumer
  | .add fields => some { s with stream := s.stream ++ [⟨s.stream.length, fields⟩] }
  | .change table => some { s with table }
  | .start =>
    if s.phase = .down then
      some { s with phase := .ensureGroup, toRecover := s.pending, handledSince := [] }
    else none
  | .crash => if s.phase = .down then none else some { s with phase := .down }
  | .call outcome => s.call parse tenantId outcome

end NexusWorkflow.StreamConsumer
