import NexusWorkflow.Lib.KeyedMap
import NexusWorkflow.Lib.Processes
import NexusWorkflow.Model.Types

/-!
# The scheduler

`PostgresScheduler` (`scheduler/PostgresScheduler.ts`) with the timers of its store and the
intervals that it has set.  What a function does between two `await`s is one operation.  A poll that
an interval starts is not awaited by anyone, so a poll may be under way when the next one starts.
-/

namespace NexusWorkflow.Scheduling

/-! ## State -/

structure ScheduledTimer where
  id : Nat
  instanceId : Nat
  tokenId : Nat
  fireAt : Time
  createdAt : Time
  deriving DecidableEq

/-- The scheduler, its intervals and the timers in the store. -/
structure Scheduler where
  timers : KeyedMap ScheduledTimer.id := ∅
  now : Time := 0
  intervalHandle : Option Nat := none
  /-- The handles of the intervals that have been set and not been cleared. -/
  intervals : List Nat := []
  /-- How many intervals have been set. -/
  handles : Nat := 0
  /-- Not in the source: how often `start` has been called. -/
  starts : Nat := 0
  /-- Not in the source: how often `stop` has been called. -/
  stops : Nat := 0
  /-- Not in the source: `stop` has resolved, and `start` has not been called since. -/
  stopped : Bool := false
  /-- Not in the source: the timers that a poll has deleted. -/
  taken : List ScheduledTimer := []
  /-- Not in the source: the callbacks that have been called, with their timers. -/
  fired : List (Nat × ScheduledTimer) := []
  /-- Not in the source: the timers that a poll has deleted without hearing of it. -/
  lost : List ScheduledTimer := []

/-! ## Operations -/

/-- A call of the store has failed, or a callback has thrown. -/
inductive PollError where
  | failed
  deriving DecidableEq

inductive SchedulerOp where
  /-- `start` up to its first `await`. -/
  | start
  | getDueTimers
  | deleteTimer (timer : ScheduledTimer)
  | callback (k : Nat) (timer : ScheduledTimer)
  /-- The rest of `start`. -/
  | setInterval
  | stop
  /-- An interval goes off. -/
  | tick (handle : Nat)

/-- What the operation returns; `start` and `setInterval` say how often `stop` had been called,
`start` only if there is nothing left to do. -/
abbrev SchedulerOp.Answer : SchedulerOp → Type
  | start => Option Nat
  | getDueTimers => List ScheduledTimer
  | setInterval => Nat
  | deleteTimer _ | callback _ _ | stop | tick _ => Unit

namespace Scheduler

variable (s : Scheduler)

/-- `getDueTimers(new Date())`. -/
def getDueTimers : List ScheduledTimer :=
  (s.timers.values.filter (·.fireAt ≤ s.now)).insertionSort fun a b => a.fireAt ≤ b.fireAt

def take (timer : ScheduledTimer) : Scheduler :=
  { s with timers := s.timers.erase timer.id, taken := s.taken ++ [timer] }

/-- What may come of the operation; it has to wait if there is nothing. -/
def outcomes : (op : SchedulerOp) → List (Scheduler × Except PollError op.Answer)
  | .start =>
      [({ s with starts := s.starts + 1, stopped := false },
        .ok (s.intervalHandle.map fun _ => s.stops))]
  | .getDueTimers => [(s, .ok s.getDueTimers), (s, .error .failed)]
  | .deleteTimer timer =>
      [(s.take timer, .ok ()), (s, .error .failed),
        -- the store has deleted it, and the answer is lost
        ({ s with timers := s.timers.erase timer.id, lost := s.lost ++ [timer] }, .error .failed)]
  | .callback k timer =>
      let s' := { s with fired := s.fired ++ [(k, timer)] }
      [(s', .ok ()), (s', .error .failed)]
  | .setInterval =>
      [({ s with intervalHandle := some s.handles, intervals := s.intervals ++ [s.handles],
                 handles := s.handles + 1 }, .ok s.stops)]
  | .stop =>
      [({ s with
          intervals := s.intervals.filter (some · ≠ s.intervalHandle)
          intervalHandle := none
          stops := s.stops + 1
          stopped := true }, .ok ())]
  | .tick handle => if handle ∈ s.intervals then [(s, .ok ())] else []

end Scheduler

/-- Time goes by, and others schedule and cancel timers. -/
inductive Event where
  | wait (ms : Nat)
  | schedule (timer : ScheduledTimer)
  | cancel (timerId : Nat)

def Event.apply : Event → Scheduler → Scheduler
  | wait ms, s => { s with now := s.now + ms }
  | schedule timer, s => { s with timers := s.timers.set timer }
  | cancel timerId, s => { s with timers := s.timers.erase timerId }

/-! ## Functions of the scheduler -/

/-- An asynchronous function on the scheduler. -/
abbrev Task := Async SchedulerOp SchedulerOp.Answer PollError

def await (op : SchedulerOp) : Task op.Answer := Async.await op

/-- Which function has resolved. -/
inductive Reply where
  /-- With how often `stop` had been called, and the timers that its poll has found, if there was
  one. -/
  | started (stops : Nat) (due : List ScheduledTimer)
  | stopped
  /-- The poll of an interval, with the timers that it has found. -/
  | polled (due : List ScheduledTimer)
  /-- The poll of an interval has failed. -/
  | caught

section Functions

variable (callbacks : Nat)

/-- One turn of the loop of `poll`. -/
def fire (timer : ScheduledTimer) : Task Unit := do
  await (.deleteTimer timer)
  (List.range callbacks).forM fun k => await (.callback k timer)

/-- The timers that it has found; the source returns nothing. -/
def poll : Task (List ScheduledTimer) := do
  let due ← await .getDueTimers
  due.forM (fire callbacks)
  return due

def start : Task Reply := do
  match ← await .start with
  | some stops => return .started stops []
  | none => do
      let due ← poll callbacks
      let stops ← await .setInterval
      return .started stops due

def stop : Task Reply := do
  await .stop
  return .stopped

/-- What an interval does each time. -/
def tick (handle : Nat) : Task Reply := do
  await (.tick handle)
  tryCatch (do return .polled (← poll callbacks)) fun _ => return .caught

/-- A call of the scheduler, or an interval that goes off. -/
inductive SchedulerCall where
  | start
  | stop
  | tick (handle : Nat)

/-- A call under way. -/
abbrev SchedulerProcess := Process SchedulerOp SchedulerOp.Answer PollError (Except PollError Reply)

def SchedulerCall.program : SchedulerCall → SchedulerProcess
  | start => (Scheduling.start callbacks).run
  | stop => Scheduling.stop.run
  | tick handle => (Scheduling.tick callbacks handle).run

end Functions

/-- The scheduler and the calls under way. -/
abbrev Schedule := World Scheduler SchedulerOp SchedulerOp.Answer PollError (Except PollError Reply)

end NexusWorkflow.Scheduling
