import NexusWorkflow.Lib.Machines

/-!
# Status changes of an organization

The routes of the ERP through which the owner of an organization requests a change of its status or
takes the request back, and through which it is decided
(`nexus-erp/src/app/api/organizations/[id]/request-status-change`, `…/decision`,
`nexus-erp/src/app/api/tasks/[id]/complete`), past the authorization of managers and the validation
of bodies, with the row of one organization and the workflow service, where `org-status-change.xml`
runs.  A request waits for one call of the database or of the service at a time.  If the call fails,
or the process dies, the request is over, unless the route catches the error.
-/

namespace NexusWorkflow.Organizations

open Machine (Outcome)

/-! ## State -/

inductive OrganizationStatus where
  | active | inactive | archived
  deriving DecidableEq

inductive RequestedStatus where
  | active | inactive
  deriving DecidableEq

def RequestedStatus.status : RequestedStatus → OrganizationStatus
  | .active => .active
  | .inactive => .inactive

structure Organization where
  ownerId : String
  status : OrganizationStatus := .active
  statusChangeReason : Option String := none
  workflowInstanceId : Option Nat := none
  deriving DecidableEq

/-- At `await-manager-decision`, or at one of the ends. -/
inductive Position where
  | waiting | approved | denied | timedOut | cancelled
  deriving DecidableEq

/-- The gateway `route-decision`. -/
def Position.decided (approved : Bool) : Position := if approved then .approved else .denied

/-- An instance of `org-status-change`. -/
structure Instance where
  /-- The employee of `requestedByUserId`. -/
  requestedBy : String
  requestedStatus : RequestedStatus
  position : Position := .waiting
  deriving DecidableEq

inductive Task where
  | awaitManagerDecision (instanceId : Nat)
  /-- A task of another process or of another organization. -/
  | other (id : Nat)
  deriving DecidableEq

/-- The row of the organization and the workflow service. -/
structure Office where
  organization : Organization
  /-- The instance with the id `i` is the `i`-th one. -/
  instances : List Instance := []
  /-- The records with the status `open`, in the order in which they were created. -/
  openTasks : List Task := []
  /-- Not in the source: the instances whose requested status has been written to the
  organization. -/
  applied : List Nat := []
  deriving DecidableEq

/-! ## Requests -/

inductive Decision where
  | approved | denied
  deriving DecidableEq

/-- The decisions of the route for tasks. -/
inductive TaskDecision where
  | approved | rejected | revision_requested
  deriving DecidableEq

inductive Request where
  /-- `POST /organizations/[id]/request-status-change`. -/
  | requestStatusChange (employeeId : String) (requestedStatus : RequestedStatus)
      (statusChangeReason : String)
  /-- `DELETE /organizations/[id]/request-status-change`. -/
  | cancelStatusChange (employeeId : String)
  /-- `POST /organizations/[id]/decision`. -/
  | decide (decision : Decision)
  /-- `POST /tasks/[id]/complete`, for the task of an instance. -/
  | complete (instanceId : Nat) (decision : TaskDecision)
  deriving DecidableEq

/-- The call that a request waits for. -/
inductive Phase where
  | reading
  /-- `startInstance`. -/
  | starting
  /-- The update with the instance that was started. -/
  | linking (instanceId : Nat)
  /-- `cancelInstance`. -/
  | cancelling (instanceId : Nat)
  /-- The update that takes the link away, of `DELETE`. -/
  | clearing
  /-- `listTasks`. -/
  | listing (instanceId : Nat)
  /-- `getInstance`. -/
  | checking (instanceId : Nat)
  /-- The update that takes the link away, of a decision that comes too late. -/
  | expiring
  /-- `getTask`. -/
  | fetching (instanceId : Nat)
  /-- The update of the organization before the task is completed. -/
  | deciding (instanceId : Nat) (requestedStatus : RequestedStatus)
  /-- `completeTask` after it. -/
  | signalling (instanceId : Nat)
  /-- `completeTask` of the route for tasks. -/
  | completing (requestedStatus : RequestedStatus)
  /-- The organization of the instance is looked for. -/
  | finding (requestedStatus : RequestedStatus)
  /-- The update of the organization after the task was completed. -/
  | syncing (requestedStatus : RequestedStatus)
  | done
  deriving DecidableEq

namespace Office

variable (s : Office)

def position (instanceId : Nat) : Option Position := s.instances[instanceId]?.map (·.position)

/-- `listTasks({ status: 'open', pageSize: 50 })`. -/
def listTasks : List Task := s.openTasks.take 50

/-- The query that the request starts with, and the checks after it. -/
def read : Request → Phase
  | .requestStatusChange employeeId requestedStatus _ =>
    if s.organization.ownerId = employeeId ∧ s.organization.workflowInstanceId = none ∧
        requestedStatus.status ≠ s.organization.status then
      .starting
    else .done
  | .cancelStatusChange employeeId =>
    if s.organization.ownerId = employeeId then
      match s.organization.workflowInstanceId with
      | none => .done
      | some instanceId => .cancelling instanceId
    else .done
  | .decide _ =>
    match s.organization.workflowInstanceId with
    | none => .done
    | some instanceId => .listing instanceId
  | .complete instanceId _ =>
    match s.instances[instanceId]? with
    | none => .done
    | some inst => .completing inst.requestedStatus

/-- `startInstance`. -/
def start (requestedBy : String) (requestedStatus : RequestedStatus) : Office :=
  { s with
    instances := s.instances ++ [{ requestedBy, requestedStatus }]
    openTasks := s.openTasks ++ [.awaitManagerDecision s.instances.length] }

/-- The instance goes on; the record of its task stays open when the timer has fired. -/
def moveTo (instanceId : Nat) (position : Position) : Office :=
  { s with instances := s.instances.modify instanceId fun inst => { inst with position } }

/-- The instance leaves its task, and the record of the task is closed. -/
def leave (instanceId : Nat) (position : Position) : Office :=
  { s.moveTo instanceId position with
    openTasks := s.openTasks.filter (· ≠ .awaitManagerDecision instanceId) }

def link (statusChangeReason : String) (instanceId : Nat) : Office :=
  { s with organization := { s.organization with
      statusChangeReason := some statusChangeReason, workflowInstanceId := some instanceId } }

/-- The update of a request that is not approved. -/
def clear : Office :=
  { s with organization := { s.organization with
    workflowInstanceId := none, statusChangeReason := none } }

/-- The update of an approved request. -/
def apply (instanceId : Nat) (requestedStatus : RequestedStatus) : Office :=
  { s with
    organization :=
      { s.organization with status := requestedStatus.status, workflowInstanceId := none }
    applied := s.applied ++ [instanceId] }

/-- The call that the request waits for is made. -/
def perform : Request → Phase → Office × Phase
  | request, .reading => (s, s.read request)
  | .requestStatusChange employeeId requestedStatus _, .starting =>
    (s.start employeeId requestedStatus, .linking s.instances.length)
  | .requestStatusChange _ _ statusChangeReason, .linking instanceId =>
    (s.link statusChangeReason instanceId, .done)
  | .cancelStatusChange _, .cancelling instanceId =>
    (if s.position instanceId = some .waiting then s.leave instanceId .cancelled else s, .clearing)
  | .cancelStatusChange _, .clearing => (s.clear, .done)
  | .decide _, .listing instanceId =>
    (s, if .awaitManagerDecision instanceId ∈ s.listTasks then .fetching instanceId
        else .checking instanceId)
  | .decide _, .checking instanceId =>
    (s, if s.position instanceId = some .waiting then .done else .expiring)
  | .decide _, .expiring => (s.clear, .done)
  | .decide _, .fetching instanceId =>
    match s.instances[instanceId]? with
    | none => (s, .done)
    | some inst => (s, .deciding instanceId inst.requestedStatus)
  | .decide .approved, .deciding instanceId requestedStatus =>
    (s.apply instanceId requestedStatus, .signalling instanceId)
  | .decide .denied, .deciding instanceId _ => (s.clear, .signalling instanceId)
  | .decide decision, .signalling instanceId =>
    -- a task that is not open is refused
    (if s.position instanceId = some .waiting then
      s.leave instanceId (.decided (decision = .approved)) else s, .done)
  | .complete instanceId decision, .completing requestedStatus =>
    if s.position instanceId = some .waiting then
      (s.leave instanceId (.decided (decision = .approved)), .finding requestedStatus)
    else (s, .done)
  | .complete instanceId _, .finding requestedStatus =>
    (s, if s.organization.workflowInstanceId = some instanceId then .syncing requestedStatus
        else .done)
  | .complete instanceId .approved, .syncing requestedStatus =>
    (s.apply instanceId requestedStatus, .done)
  | .complete _ _, .syncing _ => (s.clear, .done)
  | _, _ => (s, .done)

end Office

/-- Where a request goes on after an error. -/
def Phase.caught : Phase → Phase
  | .cancelling _ => .clearing
  | _ => .done

/-! ## Runs -/

structure System where
  office : Office
  requests : List (Request × Phase) := []

inductive Happening where
  | request (request : Request)
  /-- The call that the `c`-th request waits for is over. -/
  | go (c : Nat) (outcome : Outcome)
  /-- The boundary timer of an instance fires. -/
  | timeout (instanceId : Nat)
  /-- Other tasks come and go. -/
  | openTask (id : Nat)
  | closeTask (id : Nat)

def System.go (s : System) (c : Nat) (request : Request) (phase : Phase) (outcome : Outcome) :
    System :=
  let (office, next) := s.office.perform request phase
  match outcome with
  | .ok => { office, requests := s.requests.set c (request, next) }
  | .failed => { s with requests := s.requests.set c (request, phase.caught) }
  | .lost => { office, requests := s.requests.set c (request, phase.caught) }

def System.step (s : System) : Happening → Option System
  | .request request => some { s with requests := s.requests ++ [(request, .reading)] }
  | .go c outcome =>
    match s.requests[c]? with
    | none => none
    | some (_, .done) => none
    | some (request, phase) => some (s.go c request phase outcome)
  | .timeout instanceId =>
    if s.office.position instanceId = some .waiting then
      some { s with office := s.office.moveTo instanceId .timedOut }
    else none
  | .openTask id =>
      some { s with office := { s.office with openTasks := s.office.openTasks ++ [.other id] } }
  | .closeTask id =>
    some { s with office := { s.office with openTasks := s.office.openTasks.filter (· ≠ .other id) }
      }

end NexusWorkflow.Organizations
