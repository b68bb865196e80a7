import NexusWorkflow.Lib.KeyedMap
import NexusWorkflow.Lib.Machines

/-!
# The attempts of a worker

`TaskWorker` (`worker/TaskWorker.ts`): it answers every `ServiceTaskStarted` event with an attempt
of the handler, and a result that asks for it with another attempt later.  Between two `await`s an
attempt waits for the store, for the handler, or for `runCommand`, which makes calls of the store
and of the event bus only; what comes of that, and how long a timer takes, is up to the
surroundings.
-/

namespace NexusWorkflow.TaskWorkers

/-! ## State -/

/-- What an attempt waits for. -/
inductive Phase where
  /-- `loadEngineState`. -/
  | loading
  /-- `getScopeChain`. -/
  | scoping
  /-- `handler.execute`. -/
  | executing
  /-- `complete` or `fail`. -/
  | finishing
  | over
  deriving DecidableEq

/-- A call of `runAttempt`. -/
structure Run where
  tokenId : String
  attempt : Nat
  phase : Phase := .loading
  deriving DecidableEq

inductive Event where
  /-- The handler is started for an attempt. -/
  | started (tokenId : String) (attempt : Nat)
  /-- The worker sets out to complete the token, or to fail it. -/
  | settled (tokenId : String)
  deriving DecidableEq

structure TaskWorker where
  maxAttempts : Int := 3
  attemptByToken : KeyedMap (Prod.fst : String × Nat → String) := ∅
  inflightKeys : List (String × Nat) := []
  runs : List Run := []
  /-- What the timers that are set will attempt. -/
  timers : List (String × Nat) := []
  /-- Not in the source. -/
  log : List Event := []

/-! ## Steps -/

/-- What `loadEngineState` and the look at the handlers find. -/
inductive Loaded where
  /-- No instance, or no waiting token. -/
  | absent
  | noHandler
  | ready
  deriving DecidableEq

inductive Result where
  | completed | error | retry
  /-- The handler throws. -/
  | exception
  deriving DecidableEq

namespace TaskWorker

variable (w : TaskWorker)

/-- The key is added, and the attempt begins. -/
def run (tokenId : String) (attempt : Nat) : TaskWorker :=
  { w with
    inflightKeys := w.inflightKeys ++ [(tokenId, attempt)]
    runs := w.runs ++ [{ tokenId, attempt }] }

local instance : LawfulBEq (String × Nat) := inferInstance

def dispatch (tokenId : String) : TaskWorker :=
  let attempt := ((w.attemptByToken.get? tokenId).map Prod.snd).getD 1
  if (tokenId, attempt) ∈ w.inflightKeys then w
  else { w.run tokenId attempt with attemptByToken := w.attemptByToken.set (tokenId, attempt) }

/-- The callback of a timer. -/
def retry (tokenId : String) (nextAttempt : Nat) : TaskWorker :=
  if (tokenId, nextAttempt) ∈ w.inflightKeys then w else w.run tokenId nextAttempt

def goOn (i : Nat) (r : Run) (phase : Phase) : TaskWorker :=
  { w with runs := w.runs.set i { r with phase } }

/-- `complete` or `fail` is called. -/
def settle (i : Nat) (r : Run) : TaskWorker :=
  { w.goOn i r .finishing with log := w.log ++ [.settled r.tokenId] }

/-- What follows on `handler.execute`. -/
def onResult (i : Nat) (r : Run) : Result → TaskWorker
  | .completed | .error | .exception => w.settle i r
  | .retry =>
    if w.maxAttempts < r.attempt + 1 then w.settle i r
    else
      { w.goOn i r .over with
        attemptByToken := w.attemptByToken.set (r.tokenId, r.attempt + 1)
        timers := w.timers ++ [(r.tokenId, r.attempt + 1)] }

end TaskWorker

inductive Happening where
  | serviceTaskStarted (tokenId : String)
  | loaded (i : Nat) (loaded : Loaded)
  | scopeChain (i : Nat)
  | returned (i : Nat) (result : Result)
  /-- `complete` or `fail` is through. -/
  | finished (i : Nat)
  /-- A call of the store or of the event bus fails. -/
  | failed (i : Nat)
  /-- A timer fires. -/
  | fire (k : Nat)

def TaskWorker.step (w : TaskWorker) : Happening → Option TaskWorker
  | .serviceTaskStarted tokenId => some (w.dispatch tokenId)
  | .loaded i loaded =>
    match w.runs[i]?, loaded with
    | some r, .absent => if r.phase = .loading then some (w.goOn i r .over) else none
    | some r, .noHandler => if r.phase = .loading then some (w.settle i r) else none
    | some r, .ready => if r.phase = .loading then some (w.goOn i r .scoping) else none
    | none, _ => none
  | .scopeChain i =>
    match w.runs[i]? with
    | some r =>
      if r.phase = .scoping then
        some { w.goOn i r .executing with log := w.log ++ [.started r.tokenId r.attempt] }
      else none
    | none => none
  | .returned i result =>
    match w.runs[i]? with
    | some r => if r.phase = .executing then some (w.onResult i r result) else none
    | none => none
  | .finished i =>
    match w.runs[i]? with
    | some r =>
      if r.phase = .finishing then
        some { w.goOn i r .over with attemptByToken := w.attemptByToken.erase r.tokenId }
      else none
    | none => none
  | .failed i =>
    match w.runs[i]? with
    | some r => if r.phase = .executing ∨ r.phase = .over then none else some (w.goOn i r .over)
    | none => none
  | .fire k =>
    match w.timers[k]? with
    | some (tokenId, nextAttempt) =>
      some ({ w with timers := w.timers.eraseIdx k }.retry tokenId nextAttempt)
    | none => none

end NexusWorkflow.TaskWorkers
