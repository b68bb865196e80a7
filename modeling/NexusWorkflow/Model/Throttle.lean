import NexusWorkflow.Lib.KeyedMap
import NexusWorkflow.Model.Types

/-!
# The throttle of the sign-in

`LoginThrottle` (`auth/LoginThrottle.ts`): it counts the failed attempts of a key, and locks a key
that fails too often.  Every reading of the clock is an argument, so a call that reads it twice has
two of them.
-/

namespace NexusWorkflow

structure LoginThrottleOptions where
  maxFailures : Nat
  windowMs : Int
  lockMs : Int
  maxKeys : Nat := 10000
  pendingTtlMs : Int := 60000

/-- An entry of the table, with its key. -/
structure Entry where
  key : String
  failures : List Time := []
  /-- Start times of attempts let through that have not reported back yet. -/
  pending : List Time := []
  lockedUntil : Time := 0

structure LoginThrottle where
  options : LoginThrottleOptions
  entries : KeyedMap Entry.key := ∅

/-- The answer of `check` and of `begin`; there is no number when every slot would have to be waited
for and there is none. -/
inductive ThrottleResult where
  | allowed
  | refused (retryAfterSeconds : Option Nat)
  deriving DecidableEq

namespace LoginThrottleOptions

variable (o : LoginThrottleOptions)

/-- `now - at < windowMs`. -/
def inWindow (now failedAt : Time) : Bool := now - failedAt < o.windowMs

/-- `now - at < pendingTtlMs`. -/
def inFlight (now startedAt : Time) : Bool := now - startedAt < o.pendingTtlMs

def activeFailures (e : Entry) (now : Time) : Nat := (e.failures.filter (o.inWindow now)).length

def activePending (e : Entry) (now : Time) : Nat := (e.pending.filter (o.inFlight now)).length

end LoginThrottleOptions

def Entry.isLocked (e : Entry) (now : Time) : Bool := now < e.lockedUntil

/-- One more failure of the entry, which may lock it. -/
def Entry.failed (o : LoginThrottleOptions) (entry : Entry) (now : Time) : Entry :=
  let failures := entry.failures.filter (o.inWindow now) ++ [now]
  if o.maxFailures ≤ failures.length then
    { entry with lockedUntil := now + o.lockMs, failures := [] }
  else { entry with failures }

/-- `Math.ceil(ms / 1000)` of a positive number. -/
def ceilSeconds (ms : Int) : Nat := ((ms + 999) / 1000).toNat

namespace LoginThrottle

variable (t : LoginThrottle)

def isStale (e : Entry) (now : Time) : Bool :=
  !e.isLocked now && t.options.activeFailures e now = 0 && t.options.activePending e now = 0

def size : Nat := t.entries.values.length

def canMakeRoom (now : Time) : Bool := t.entries.values.any fun e => !e.isLocked now

/-- `Infinity`, if there is no entry. -/
def earliestUnlock : Option Time := (t.entries.values.map (·.lockedUntil)).min?

/-- One turn of the second loop of `makeRoom`. -/
def dropUnlocked (now : Time) (entries : KeyedMap Entry.key) (e : Entry) : KeyedMap Entry.key :=
  if entries.values.length < t.options.maxKeys ∨ e.isLocked now then entries
  else entries.erase e.key

/-- The entries after `makeRoom`: stale entries go first, then the oldest unlocked ones.  There is
room if there are fewer than `maxKeys` then. -/
def makeRoom (now : Time) : KeyedMap Entry.key :=
  if t.size < t.options.maxKeys then t.entries
  else
    let fresh := t.entries.keep fun e => !t.isStale e now
    fresh.values.foldl (t.dropUnlocked now) fresh

/-- Whether one more attempt may start now. -/
def check (key : String) (now : Time) : ThrottleResult :=
  match t.entries.get? key with
  | some entry =>
      if now < entry.lockedUntil then .refused (ceilSeconds (entry.lockedUntil - now))
      else if t.options.maxFailures ≤ t.options.activeFailures entry now +
        t.options.activePending entry now
      then .refused (some 1)
      else .allowed
  | none =>
      if t.options.maxKeys ≤ t.size ∧ t.canMakeRoom now = false then
        .refused (t.earliestUnlock.map fun earliest => max 1 (ceilSeconds (earliest - now)))
      else .allowed

/-- The entry of the key, or a new one if there is room for it; and the entries without it. -/
def entryFor (key : String) (now : Time) : KeyedMap Entry.key × Option Entry :=
  match t.entries.get? key with
  | some entry => (t.entries, some entry)
  | none =>
      let entries := t.makeRoom now
      (entries, if entries.values.length < t.options.maxKeys then some { key } else none)

/-- Starts an attempt; the clock is read once for the check and once for the reservation. -/
def begin (key : String) (now later : Time) : LoginThrottle × ThrottleResult :=
  match t.check key now with
  | .refused retryAfterSeconds => (t, .refused retryAfterSeconds)
  | .allowed =>
      match t.entryFor key later with
      | (entries, none) => ({ t with entries }, .refused (some 1))
      | (entries, some entry) =>
          ({ t with entries := entries.set { entry with pending := entry.pending ++ [later] } },
            .allowed)

/-- `settle`: the attempt with this key that started at this time gives its reservation back. -/
def settle (key : String) (startedAt : Time) : LoginThrottle :=
  match t.entries.get? key with
  | none => t
  | some entry =>
      { t with entries := t.entries.set { entry with pending := entry.pending.erase startedAt } }

def addFailure (key : String) (now : Time) : LoginThrottle :=
  match t.entryFor key now with
  | (entries, none) => { t with entries }
  | (entries, some entry) => { t with entries := entries.set (entry.failed t.options now) }

/-- `fail()` of an attempt. -/
def fail (key : String) (startedAt now : Time) : LoginThrottle :=
  (t.settle key startedAt).addFailure key now

/-- A good sign-in clears the failures of the key (but never lifts a lock already in force). -/
def recordSuccess (key : String) (now later : Time) : LoginThrottle :=
  match t.entries.get? key with
  | none => t
  | some entry =>
      if now < entry.lockedUntil then t
      else if t.options.activePending entry later = 0 then { t with entries := t.entries.erase key }
      else { t with entries := t.entries.set { entry with failures := [] } }

end LoginThrottle

end NexusWorkflow
