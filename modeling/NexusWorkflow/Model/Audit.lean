import NexusWorkflow.Lib.Interleaving
import NexusWorkflow.Lib.Like
import NexusWorkflow.Lib.Pages
import NexusWorkflow.Lib.Utf16
import NexusWorkflow.Model.Store
import NexusWorkflow.Model.Tenants

/-!
# The audit log

`db/AuditLog.ts`, and the route that reads the log (`http/audit.ts`).  The newest entry is the first
of the list; rows are only ever added.
-/

namespace NexusWorkflow.Audit

/-! ## Entries -/

/-- What is given as a detail: a value of JavaScript, which may be a date; `none` is an invalid
date. -/
inductive Detail where
  | undefined
  | null
  | bool (b : Bool)
  | number (n : JsNumber)
  | string (s : String)
  | date (time : Option Time)
  | array (items : List Detail)
  | object (fields : List (String × Detail))

/-- Who acted: whoever a principal can be, or nobody who is signed in. -/
inductive AuditActor where
  | known (actor : Tenancy.AuditActor)
  | anonymous (label : Option String)

/-- The tenants that the action is about, what was acted on, and a few facts. -/
structure AuditInput where
  action : String
  actor : AuditActor
  tenantIds : List String := []
  target : Option String := none
  details : List (String × Detail) := []

inductive ActorKind where
  | user | adminKey | operatorKey | apiKey | anonymous
  deriving DecidableEq

def ActorKind.text : ActorKind → String
  | user => "user"
  | adminKey => "adminKey"
  | operatorKey => "operatorKey"
  | apiKey => "apiKey"
  | anonymous => "anonymous"

/-- A row of `audit_log`. -/
structure AuditEntry where
  id : String
  /-- The source's `at`, a Lean keyword. -/
  recordedAt : Time
  actorKind : ActorKind
  actorId : Option String
  actorLabel : Option String
  action : String
  tenantIds : List String
  target : Option String
  details : Value

/-! ## Dates as text -/

/-- The year, the month and the day of a day since 1970-01-01.  The years are counted from March on,
in eras of four hundred. -/
def civil (day : Int) : Int × Nat × Nat :=
  let era := (day + 719468) / 146097
  let dayOfEra := ((day + 719468) % 146097).toNat
  let year := (dayOfEra - dayOfEra / 1460 + dayOfEra / 36524 - dayOfEra / 146096) / 365
  let dayOfYear := dayOfEra - (365 * year + year / 4 - year / 100)
  let month := (5 * dayOfYear + 2) / 153
  (year + era * 400 + (if month < 10 then 0 else 1), if month < 10 then month + 3 else month - 9,
    dayOfYear - (153 * month + 2) / 5 + 1)

def padded (width n : Nat) : String :=
  String.ofList ((Nat.toDigits 10 n).leftpad width '0')

/-- `toISOString` of a valid date. -/
def toISOString (time : Time) : String :=
  let (year, month, day) := civil (time / 86400000)
  let ms := (time % 86400000).toNat
  let years :=
    if 0 ≤ year ∧ year ≤ 9999 then padded 4 year.toNat
    else (if year < 0 then "-" else "+") ++ padded 6 year.natAbs
  let hours := s!"{padded 2 (ms / 3600000)}:{padded 2 (ms / 60000 % 60)}"
  let seconds := s!"{padded 2 (ms / 1000 % 60)}.{padded 3 (ms % 1000)}"
  s!"{years}-{padded 2 month}-{padded 2 day}T{hours}:{seconds}Z"

example : (toISOString 1767225600000, toISOString (-62198755200001)) =
    ("2026-01-01T00:00:00.000Z", "-000002-12-31T23:59:59.999Z") := by decide +kernel

/-! ## Keeping secrets out -/

/-- The name without the difference of small and capital letters. -/
def lowerCase (name : String) : List Char := name.toList.map Char.toLower

/-- `FORBIDDEN_FIELD`: the name has one of the words in it, or ends with one of those for an API
key. -/
def forbiddenField (name : String) : Bool :=
  (["pass", "secret", "token", "plaintext", "hash", "authorization", "cookie"].any fun word =>
      decide (word.toList <:+: lowerCase name)) ||
    ["apikey", "api_key", "api-key"].any fun word => decide (word.toList <:+ lowerCase name)

mutual

/-- `scrub`: an invalid date has no text. -/
def scrub (v : Detail) (depth : Nat) : Except String Value :=
  if 5 < depth then .ok (.string "[too deep]")
  else match v with
    | .array items => .array <$> scrubItems items (depth + 1)
    | .date (some time) => .ok (.string (toISOString time))
    | .date none => .error "Invalid time value"
    | .object fields => .object <$> scrubFields fields (depth + 1)
    | .undefined => .ok .undefined
    | .null => .ok .null
    | .bool b => .ok (.bool b)
    | .number n => .ok (.number n)
    | .string s => .ok (.string s)

def scrubItems : List Detail → Nat → Except String (List Value)
  | [], _ => .ok []
  | item :: items, depth => do
      let item ← scrub item depth
      let items ← scrubItems items depth
      .ok (item :: items)

def scrubFields : List (String × Detail) → Nat → Except String (List (String × Value))
  | [], _ => .ok []
  | (name, item) :: fields, depth =>
      if forbiddenField name then scrubFields fields depth
      else do
        let item ← scrub item depth
        let fields ← scrubFields fields depth
        .ok ((name, item) :: fields)

end

/-! ## Writing -/

/-- `text.replace(/[\r\n\t]+/g, ' ')`. -/
def onOneLine : List Char → List Char
  | [] => []
  | c :: text =>
      if c ∈ ['\r', '\n', '\t'] then
        if text.head?.any (· ∈ ['\r', '\n', '\t']) then onOneLine text else ' ' :: onOneLine text
      else c :: onOneLine text

/-- `clip`: at most 512 units of UTF-16. -/
def clip (text : String) : String :=
  String.ofList (Utf16.decode (((onOneLine text.toList).flatMap Utf16.units).take 512))

def AuditActor.kind : AuditActor → ActorKind
  | known (.user _ _) => .user
  | known .adminKey => .adminKey
  | known (.operatorKey _ _) => .operatorKey
  | known (.apiKey _ _) => .apiKey
  | anonymous _ => .anonymous

def AuditActor.id : AuditActor → Option String
  | known (.user id _) | known (.operatorKey id _) | known (.apiKey id _) => some id
  | known .adminKey | anonymous _ => none

def AuditActor.label : AuditActor → Option String
  | known .adminKey => some "admin key"
  | known (.user _ label) | known (.operatorKey _ label) | known (.apiKey _ label) =>
    some (clip label)
  | anonymous label => label.map clip

/-- `[...new Set(ids)]`. -/
def distinctIds (ids : List String) : List String :=
  (KeyedMap.ofList ids : KeyedMap (id : String → String)).values

/-- The row for the input, with these details. -/
def rowOf (id : String) (now : Time) (input : AuditInput) (details : Value) : AuditEntry where
  id
  recordedAt := now
  actorKind := input.actor.kind
  actorId := input.actor.id
  actorLabel := input.actor.label
  action := input.action
  tenantIds := distinctIds input.tenantIds
  target := input.target.map clip
  details

structure AuditQuery where
  visibleToManagerOf : Option (List String) := none
  tenantId : Option String := none
  actor : Option String := none
  action : Option String := none
  fromTime : Option Time := none
  toTime : Option Time := none
  page : Nat
  pageSize : Nat

structure AuditPage where
  entries : List AuditEntry
  total : Nat
  page : Nat
  pageSize : Nat

/-- The conditions of the query. -/
def AuditQuery.selects (query : AuditQuery) (e : AuditEntry) : Bool :=
  (query.visibleToManagerOf.all fun tenants => e.tenantIds ≠ [] ∧ ∀ t ∈ e.tenantIds, t ∈ tenants) &&
    ((truthy query.tenantId).all fun tenant => decide (tenant ∈ e.tenantIds)) &&
    ((truthy query.actor).all fun actor => e.actorId = some actor ∨ e.actorKind.text = actor) &&
    ((truthy query.action).all fun action => e.action = action ∨
      Like.like (Like.escape action.toList ++ ['.', '%']) e.action.toList = some true) &&
    (query.fromTime.all fun time => decide (time ≤ e.recordedAt)) &&
    (query.toTime.all fun time => decide (e.recordedAt ≤ time))

/-- `ORDER BY at DESC, id DESC`. -/
def newer (a b : AuditEntry) : Prop :=
  b.recordedAt < a.recordedAt ∨ a.recordedAt = b.recordedAt ∧ b.id ≤ a.id

instance (a b : AuditEntry) : Decidable (newer a b) :=
  inferInstanceAs (Decidable
    (b.recordedAt < a.recordedAt ∨ a.recordedAt = b.recordedAt ∧ b.id ≤ a.id))

/-- What the query selects, the newest first. -/
def AuditQuery.rows (query : AuditQuery) (log : List AuditEntry) : List AuditEntry :=
  (log.filter query.selects).insertionSort newer

/-- `AuditLog.list`: two queries, which are sent at once. -/
def AuditQuery.list (query : AuditQuery) : Reading (List AuditEntry) AuditPage := do
  let entries ← Reading.ask fun log => Pages.page query.pageSize query.page (query.rows log)
  let total ← Reading.ask fun log => (log.filter query.selects).length
  pure { entries, total, page := query.page, pageSize := query.pageSize }

/-! ## The route -/

/-- The parameters of `GET /audit`. -/
structure AuditParams where
  page : Option String := none
  pageSize : Option String := none
  tenant : Option String := none
  actor : Option String := none
  action : Option String := none
  fromTime : Option String := none
  toTime : Option String := none

inductive AuditReply where
  | error (status : Nat) (code message : String)
  | found (page : AuditPage)

def maxPageSize : Nat := 100

def defaultPageSize : Nat := 50

/-- `whole`. -/
def whole (text : Option String) (fallback min max : Nat) : Option Nat :=
  match text with
  | none => some fallback
  | some text =>
      if text ≠ "" ∧ text.toList.all Char.isDigit then
        let n := Nat.ofDigitChars 10 text.toList 0
        if min ≤ n ∧ n ≤ max then some n else none
      else none

/-- `date`: no text and the empty text are no date, any other one has to be valid.  `parse` is that
of the host. -/
def date (parse : String → Option Time) (text : Option String) : Except Unit (Option Time) :=
  match truthy text with
  | none => .ok none
  | some text =>
      match parse text with
      | none => .error ()
      | some time => .ok (some time)

def invalid (message : String) : AuditReply := .error 400 "VALIDATION_ERROR" message

/-- What a principal may read: `none` for everything. -/
def visibleTo (principal : People.Principal) (tenant : Option String) :
    Except AuditReply (Option (List String)) :=
  if People.isOperator principal then .ok none
  else
    let managed := People.managedTenantIds principal
    if managed = [] then .error (.error 403 "FORBIDDEN" "Operator or tenant manager role required")
    else if (truthy tenant).any (· ∉ managed) then
      .error (.error 403 "FORBIDDEN" "You can only read the audit log of tenants you manage")
    else .ok (some managed)

/-- The query that a request asks for. -/
def readQuery (parse : String → Option Time) (principal : People.Principal) (q : AuditParams) :
    Except AuditReply AuditQuery :=
  match whole q.page 0 0 1000000 with
  | none => .error (invalid "\"page\" must be a whole number, starting at 0")
  | some page =>
      match whole q.pageSize defaultPageSize 1 maxPageSize with
      | none => .error (invalid "\"pageSize\" must be a whole number from 1 to 100")
      | some pageSize =>
          match date parse q.fromTime, date parse q.toTime with
          | .error _, _ => .error (invalid "\"from\" must be a date, e.g. 2026-03-01T00:00:00Z")
          | .ok _, .error _ => .error (invalid "\"to\" must be a date, e.g. 2026-03-31T23:59:59Z")
          | .ok fromTime, .ok toTime => do
              -- the restriction is applied below the filters, so no filter can widen it
              let visibleToManagerOf ← visibleTo principal q.tenant
              return { visibleToManagerOf, tenantId := truthy q.tenant, actor := truthy q.actor,
                       action := truthy q.action, fromTime, toTime, page, pageSize }

/-- `GET /audit`, for a principal that the guard has admitted. -/
def getAudit (parse : String → Option Time) (principal : Option People.Principal)
    (q : AuditParams) : Reading (List AuditEntry) AuditReply :=
  match principal with
  | none => pure (.error 401 "UNAUTHENTICATED" "Not signed in")
  | some principal =>
      match readQuery parse principal q with
      | .error reply => pure reply
      | .ok query => do
          let page ← query.list
          pure (.found page)

end NexusWorkflow.Audit
