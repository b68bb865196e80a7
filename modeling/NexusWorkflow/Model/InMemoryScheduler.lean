import NexusWorkflow.Lib.KeyedMap
import NexusWorkflow.Lib.Machines
import NexusWorkflow.Model.Scheduling

/-!
# The scheduler in memory

`InMemoryScheduler` (`core/adapters/InMemoryScheduler.ts`) and the timeouts of its host.  The host
runs the callback of a timeout at some moment when it is due; a delay that it cannot represent is
taken for one millisecond.
-/

namespace NexusWorkflow.Timeouts

open Scheduling (ScheduledTimer)

/-! ## State -/

/-- A timeout that is set. -/
structure Timeout where
  handle : Nat
  timer : ScheduledTimer
  due : Time
  /-- Not in the source: when it was set. -/
  armedAt : Time
  deriving DecidableEq

inductive Event where
  | scheduled (timerId : Nat) (fireAt : Time)
  | cancelled (timerId : Nat)
  | started
  | stopped
  | fired (timerId : Nat) (now : Time)
  deriving DecidableEq

structure InMemoryScheduler where
  timers : KeyedMap ScheduledTimer.id := ∅
  timeoutHandles : KeyedMap (Prod.fst : Nat × Nat → Nat) := ∅
  running : Bool := false
  now : Time := 0
  /-- The timeouts of the host. -/
  timeouts : List Timeout := []
  /-- The number of timeouts that have been set. -/
  handles : Nat := 0
  /-- Not in the source: what has happened, the latest first. -/
  log : List Event := []

/-- `TIMEOUT_MAX` of the host. -/
def timeoutMax : Int := 2147483647

/-- The delay of `setTimeout`. -/
def hostDelay (delay : Int) : Int := if 1 ≤ delay ∧ delay ≤ timeoutMax then delay else 1

namespace InMemoryScheduler

variable (s : InMemoryScheduler)

/-! ## Operations -/

def armTimeout (timer : ScheduledTimer) : InMemoryScheduler :=
  let delay := max 0 (timer.fireAt - s.now)
  { s with
    timeouts := s.timeouts ++ [⟨s.handles, timer, s.now + hostDelay delay, s.now⟩]
    timeoutHandles := s.timeoutHandles.set (timer.id, s.handles)
    handles := s.handles + 1 }

/-- Something goes into the log. -/
def note (event : Event) : InMemoryScheduler := { s with log := event :: s.log }

def schedule (timer : ScheduledTimer) : InMemoryScheduler :=
  let stored := { s with timers := s.timers.set timer }.note (.scheduled timer.id timer.fireAt)
  if s.running then stored.armTimeout timer else stored

def cancel (timerId : Nat) : InMemoryScheduler :=
  let deleted := { s with timers := s.timers.erase timerId }.note (.cancelled timerId)
  match s.timeoutHandles.get? timerId with
  | some (_, handle) =>
    { deleted with
      timeouts := s.timeouts.filter (·.handle ≠ handle)
      timeoutHandles := s.timeoutHandles.erase timerId }
  | none => deleted

def start : InMemoryScheduler :=
  s.timers.values.foldl armTimeout ({ s with running := true }.note .started)

def stop : InMemoryScheduler :=
  { s with
    running := false
    timeouts := s.timeouts.filter fun t => t.handle ∉ s.timeoutHandles.values.map Prod.snd
    timeoutHandles := ∅ }.note .stopped

/-- The callback of a timeout. -/
def onTimeout (timer : ScheduledTimer) : InMemoryScheduler :=
  match s.timers.get? timer.id with
  | none => s
  | some _ =>
    { s with
      timers := s.timers.erase timer.id
      timeoutHandles := s.timeoutHandles.erase timer.id }.note (.fired timer.id s.now)

end InMemoryScheduler

inductive Happening where
  | schedule (timer : ScheduledTimer)
  | cancel (timerId : Nat)
  | start
  | stop
  /-- Time passes. -/
  | advance (ms : Nat)
  /-- The host runs the callback of its `k`-th timeout. -/
  | timeout (k : Nat)

def InMemoryScheduler.step (s : InMemoryScheduler) : Happening → Option InMemoryScheduler
  | .schedule timer => some (s.schedule timer)
  | .cancel timerId => some (s.cancel timerId)
  | .start => some s.start
  | .stop => some s.stop
  | .advance ms => some { s with now := s.now + ms }
  | .timeout k =>
    match s.timeouts[k]? with
    | some t =>
        if t.due ≤ s.now then
          some ({ s with timeouts := s.timeouts.eraseIdx k }.onTimeout t.timer)
        else none
    | none => none

end NexusWorkflow.Timeouts
