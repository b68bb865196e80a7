import NexusWorkflow.Lib.Double
import NexusWorkflow.Lib.Text
import NexusWorkflow.Model.Types

/-!
# Timer expressions

`parseTimerExpression` (`scheduler/parseTimerExpression.ts`).  How the host reads a date is a
parameter.  A number past the range of the host's numbers is past that of its dates too.
-/

namespace NexusWorkflow.TimerExpression

/-! ## Dates -/

def maxTime : ℤ := 8640000000000000

/-- The time of a valid date, in milliseconds. -/
abbrev Instant := { t : ℤ // |t| ≤ maxTime }

/-- `none` is an invalid date. -/
abbrev Date := Option Instant

/-- Towards zero. -/
def trunc (q : ℚ) : ℤ := if 0 ≤ q then ⌊q⌋ else ⌈q⌉

theorem abs_trunc_le {q : ℚ} (h : |q| ≤ maxTime) : |trunc q| ≤ maxTime := by
  obtain ⟨hlower, hupper⟩ := abs_le.1 h
  unfold trunc
  split_ifs with hq
  · rw [abs_of_nonneg (Int.floor_nonneg.2 hq)]
    exact Int.cast_le.1 ((Int.floor_le q).trans hupper)
  · refine abs_le.2 ⟨?_, (Int.ceil_le.2 ?_)⟩
    · exact Int.cast_le.1 ((Int.cast_neg (R := ℚ) _).le.trans (hlower.trans (Int.le_ceil q)))
    · exact (not_le.1 hq).le.trans (Int.cast_nonneg (by decide))

/-- `new Date(q)`. -/
def Date.of (q : ℚ) : Date := if h : |q| ≤ maxTime then some ⟨trunc q, abs_trunc_le h⟩ else none

/-! ## Durations -/

/-- `\d+`. -/
abbrev Digits := { s : List Char // s ≠ [] ∧ ∀ c ∈ s, c.isDigit = true }

structure TimePart where
  hours : Option Digits
  minutes : Option Digits
  /-- With the digits after the point. -/
  seconds : Option (Digits × Option Digits)
  deriving DecidableEq

/-- The groups of the match. -/
structure Match where
  years : Option Digits
  months : Option Digits
  weeks : Option Digits
  days : Option Digits
  time : Option TimePart
  deriving DecidableEq

/-- `(\d+)`, and what comes after it. -/
def digits (s : List Char) : Option (Digits × List Char) :=
  if h : s.takeWhile Char.isDigit ≠ [] then
    some (⟨s.takeWhile Char.isDigit, h, fun _ hc => List.mem_takeWhile_imp hc⟩,
      s.dropWhile Char.isDigit)
  else none

/-- `(?:(\d+)U)?` for a unit, and what comes after it. -/
def component (unit : Char) (s : List Char) : Option Digits × List Char :=
  match digits s with
  | some (n, u :: rest) => if u = unit then (some n, rest) else (none, s)
  | _ => (none, s)

/-- `(?:(\d+(?:\.\d+)?)S)?`, and what comes after it. -/
def secondsComponent (s : List Char) : Option (Digits × Option Digits) × List Char :=
  match digits s with
  | some (n, 'S' :: rest) => (some (n, none), rest)
  | some (n, '.' :: s') =>
    match digits s' with
    | some (fraction, 'S' :: rest) => (some (n, some fraction), rest)
    | _ => (none, s)
  | _ => (none, s)

/-- `(?:T…)?$`. -/
def timePart : List Char → Option (Option TimePart)
  | [] => some none
  | 'T' :: s =>
    let (hours, s) := component 'H' s
    let (minutes, s) := component 'M' s
    let (seconds, s) := secondsComponent s
    if s = [] then some (some { hours, minutes, seconds }) else none
  | _ => none

/-- `P[nY][nM][nW][nD][T[nH][nM][nS]]`. -/
def matchDuration : List Char → Option Match
  | 'P' :: s =>
    let (years, s) := component 'Y' s
    let (months, s) := component 'M' s
    let (weeks, s) := component 'W' s
    let (days, s) := component 'D' s
    (timePart s).map fun time => { years, months, weeks, days, time }
  | _ => none

/-! ## Numbers -/

open Double (fl)

def times (x y : ℚ) : ℚ := fl (x * y)

def plus (x y : ℚ) : ℚ := fl (x + y)

/-- `Number(n ?? 0)`. -/
def number (n : Option Digits) : ℚ := fl (n.elim 0 fun n => (Nat.ofDigitChars 10 n.val 0 : ℚ))

/-- The number that the digits stand for. -/
def decimal : Digits × Option Digits → ℚ
  | (whole, none) => (Nat.ofDigitChars 10 whole.val 0 : ℚ)
  | (whole, some fraction) =>
    (Nat.ofDigitChars 10 whole.val 0 : ℚ) +
      (Nat.ofDigitChars 10 fraction.val 0 : ℚ) / 10 ^ fraction.val.length

def secondsNumber (n : Option (Digits × Option Digits)) : ℚ := fl (n.elim 0 decimal)

namespace Match

variable (m : Match)

def hours : Option Digits := m.time.bind TimePart.hours

def minutes : Option Digits := m.time.bind TimePart.minutes

def seconds : Option (Digits × Option Digits) := m.time.bind TimePart.seconds

/-- The literals `365.25` and `30.44` are numbers of double precision too. -/
def deltaMs : ℚ :=
  let years := times (times (times (times (number m.years) (fl (36525 / 100))) 24) 3600) 1000
  let months := times (times (times (times (number m.months) (fl (3044 / 100))) 24) 3600) 1000
  let weeks := times (times (times (times (number m.weeks) 7) 24) 3600) 1000
  let days := times (times (times (number m.days) 24) 3600) 1000
  let hours := times (times (number m.hours) 3600) 1000
  let minutes := times (times (number m.minutes) 60) 1000
  let seconds := times (secondsNumber m.seconds) 1000
  plus (plus (plus (plus (plus (plus years months) weeks) days) hours) minutes) seconds

end Match

/-! ## Expressions -/

/-- `/^\d{4}/`. -/
def startsWithYear (s : List Char) : Bool := 4 ≤ (s.takeWhile Char.isDigit).length

def parseTimerExpression (readDate : String → Date) (expr : String) (now : Instant) :
    Except String Date :=
  let trimmed := Text.trim expr.toList
  match if startsWithYear trimmed then readDate (String.ofList trimmed) else none with
  | some d => .ok (some d)
  | none =>
    match matchDuration trimmed with
    | some m => .ok (Date.of (plus now.val m.deltaMs))
    | none => .error ("Cannot parse timer expression: \"" ++ expr ++ "\"")

end NexusWorkflow.TimerExpression
