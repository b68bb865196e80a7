import NexusWorkflow.Lib.Double
import NexusWorkflow.Lib.Machines
import NexusWorkflow.Lib.Shares
import NexusWorkflow.Model.Types

/-!
# Timesheets and expense reports

The routes of the ERP that change a timesheet or an expense report
(`nexus-erp/src/app/api/timesheets`, `…/expenses`, `…/tasks/[id]/complete`), past their
authorization and the validation of bodies, with the tables that they share and the approval
instances in the workflow service (`timesheet-approval.xml`, `expense-approval.xml`).  A request
waits for one call of the database or of the service at a time.  If the call fails, or the process
dies, the request is over.
-/

namespace NexusWorkflow.Documents

open Double (fl)
open Machine (Outcome)

/-! ## Tables -/

inductive TimesheetStatus where
  | draft | pending_manager_review | pending_hr_review | revision_requested | approved | rejected
  deriving DecidableEq

def TimesheetStatus.editable (status : TimesheetStatus) : Bool :=
  status = .draft ∨ status = .revision_requested

inductive ExpenseReportStatus where
  | DRAFT | SUBMITTED | APPROVED_MANAGER | REJECTED | REIMBURSED
  deriving DecidableEq

/-- `EDITABLE_STATUSES`. -/
def ExpenseReportStatus.editable (status : ExpenseReportStatus) : Bool :=
  status = .DRAFT ∨ status = .REJECTED

/-- What an entry says; the hours are a decimal with two places, in hundredths. -/
structure EntryData where
  date : String
  hours : Nat
  projectCode : Option String := none
  description : Option String := none
  deriving DecidableEq

structure TimesheetEntry where
  id : Nat
  timesheetId : Nat
  data : EntryData
  deriving DecidableEq

/-- `Number(e.hours)`. -/
def TimesheetEntry.number (e : TimesheetEntry) : ℚ := fl (e.data.hours / 100)

/-- `entries.reduce((sum, e) => sum + Number(e.hours), 0)`. -/
def totalHours (entries : List TimesheetEntry) : ℚ :=
  entries.foldl (fun sum e => fl (sum + e.number)) 0

structure Timesheet where
  id : Nat
  employeeId : String
  status : TimesheetStatus := .draft
  workflowInstanceId : Option Nat := none
  /-- Not in the source: the entries when it was submitted, until it is sent back. -/
  submitted : Option (List TimesheetEntry) := none
  deriving DecidableEq

structure LineItem where
  date : String
  category : String
  /-- In hundredths. -/
  amount : Nat
  description : Option String := none
  deriving DecidableEq

structure ExpenseReport where
  id : Nat
  employeeId : String
  status : ExpenseReportStatus := .DRAFT
  workflowInstanceId : Option Nat := none
  lineItems : List LineItem := []
  receiptPath : Option String := none
  /-- Not in the source: the line items and the receipt when it was submitted, until it is sent
  back. -/
  submitted : Option (List LineItem × Option String) := none
  deriving DecidableEq

/-! ## Approval instances -/

inductive Doc where
  | timesheet (id : Nat)
  | expense (id : Nat)
  deriving DecidableEq

/-- The user tasks: `task_manager_review`, and `task_hr_review` or `task_accounting_review`. -/
inductive Review where
  | manager | second
  deriving DecidableEq

inductive Decision where
  | approved | rejected | revision_requested
  deriving DecidableEq

inductive Position where
  | waiting (review : Review)
  | ended (review : Review) (decision : Decision)
  | cancelled
  deriving DecidableEq

/-- The gateway behind a review. -/
def Position.next : Review → Decision → Position
  | .manager, .approved => .waiting .second
  | review, decision => .ended review decision

structure Instance where
  document : Doc
  totalHours : ℚ
  position : Position := .waiting .manager
  deriving DecidableEq

/-- What the workflow service commits about a document. -/
inductive Change where
  | started (instanceId : Nat)
  | decided (instanceId : Nat) (review : Review) (decision : Decision)
  deriving DecidableEq

/-! ## State -/

/-- The database and the workflow service. -/
structure Office where
  timesheets : KeyedMap Timesheet.id := ∅
  entries : KeyedMap TimesheetEntry.id := ∅
  expenses : KeyedMap ExpenseReport.id := ∅
  /-- The next id of an entry. -/
  entryIds : Nat := 0
  /-- The employees that have a manager with a user. -/
  managed : List String := []
  /-- The instance with the id `i` is the `i`-th one. -/
  instances : List Instance := []
  /-- Not in the source: what the service has committed about which document. -/
  committed : List (Doc × Change) := []
  /-- Not in the source: what has been written to the documents of that. -/
  applied : List (Doc × Change) := []

/-- No query sorts them. -/
def Office.entriesOf (s : Office) (timesheetId : Nat) : List TimesheetEntry :=
  (s.entries.share TimesheetEntry.timesheetId timesheetId).values

/-! ## Requests -/

inductive Request where
  /-- `POST /timesheets/[id]/entries`. -/
  | createEntry (employeeId : String) (timesheetId : Nat) (data : EntryData)
  /-- `PUT /timesheets/[id]/entries/[entryId]`; the date stays as it is. -/
  | updateEntry (employeeId : String) (timesheetId entryId : Nat) (hours : Nat)
      (projectCode description : Option String)
  /-- `DELETE /timesheets/[id]/entries/[entryId]`. -/
  | deleteEntry (employeeId : String) (timesheetId entryId : Nat)
  /-- `POST /timesheets/[id]/submit`. -/
  | submit (employeeId : String) (timesheetId : Nat)
  /-- `PATCH /expenses/[id]`, with line items, or with `status: 'SUBMITTED'`, or with both. -/
  | patch (employeeId : String) (expenseId : Nat) (lineItems : Option (List LineItem))
      (submitted : Bool)
  /-- `POST /expenses/[id]/receipts`. -/
  | uploadReceipt (employeeId : String) (expenseId : Nat) (receiptPath : String)
  /-- `POST /tasks/[id]/complete`. -/
  | complete (instanceId : Nat) (review : Review) (decision : Decision)
  deriving DecidableEq

/-- The call that a request waits for. -/
inductive Phase where
  | reading
  /-- The second query of `resolveEntry`. -/
  | findingEntry
  | readingManager
  /-- The write of an edit. -/
  | writing
  /-- `startInstance`. -/
  | starting (totalHours : ℚ)
  /-- The update of the document, with the instance that was started. -/
  | linking (instanceId : Option Nat)
  /-- `cancelInstance`. -/
  | cancelling (instanceId : Nat)
  /-- `completeTask`. -/
  | completing
  /-- The document of the instance is looked for. -/
  | finding
  | syncing (document : Doc)
  | done
  deriving DecidableEq

namespace Office

variable (s : Office)

/-- The query that the request starts with, and the checks after it. -/
def read : Request → Phase
  | .createEntry employeeId timesheetId _ =>
    match s.timesheets.get? timesheetId with
    | none => .done
    | some timesheet =>
      if timesheet.employeeId = employeeId ∧ timesheet.status.editable then .writing else .done
  | .updateEntry employeeId timesheetId .. | .deleteEntry employeeId timesheetId _ =>
    match s.timesheets.get? timesheetId with
    | none => .done
    | some timesheet =>
      if timesheet.employeeId = employeeId ∧ timesheet.status.editable then .findingEntry else .done
  | .submit employeeId timesheetId =>
    match s.timesheets.get? timesheetId with
    | none => .done
    | some timesheet =>
      if timesheet.employeeId = employeeId ∧ timesheet.status.editable ∧
          timesheet.employeeId ∈ s.managed ∧ s.entriesOf timesheetId ≠ [] then
        .starting (totalHours (s.entriesOf timesheetId))
      else .done
  | .patch employeeId expenseId lineItems submitted =>
    match s.expenses.get? expenseId with
    | none => .done
    | some report =>
      if report.employeeId = employeeId ∧ (lineItems.isSome ∨ submitted) ∧
          report.status.editable then
        if submitted then .readingManager else .linking none
      else .done
  | .uploadReceipt employeeId expenseId _ =>
    match s.expenses.get? expenseId with
    | none => .done
    | some report =>
      if report.employeeId = employeeId ∧ report.status.editable then .writing else .done
  | .complete instanceId _ decision =>
    match s.instances[instanceId]? with
    | none => .done
    | some inst =>
      match inst.document, decision with
      | .expense _, .revision_requested => .done
      | _, _ => .completing

/-- The write of an edit. -/
def write : Request → Office
  | .createEntry _ timesheetId data =>
    { s with entries := s.entries.set ⟨s.entryIds, timesheetId, data⟩, entryIds := s.entryIds + 1 }
  | .updateEntry _ _ entryId hours projectCode description =>
    match s.entries.get? entryId with
    | none => s
    | some e =>
      let data := { e.data with hours, projectCode, description }
      { s with entries := s.entries.set { e with data } }
  | .deleteEntry _ _ entryId => { s with entries := s.entries.erase entryId }
  | .uploadReceipt _ expenseId receiptPath =>
    match s.expenses.get? expenseId with
    | none => s
    | some report =>
      { s with expenses := s.expenses.set { report with receiptPath := some receiptPath } }
  | .submit .. | .patch .. | .complete .. => s

/-- `startInstance`. -/
def start (document : Doc) (totalHours : ℚ) : Office :=
  { s with instances := s.instances ++ [{ document, totalHours }]
           committed := s.committed ++ [(document, .started s.instances.length)] }

/-- The update that makes the timesheet pending. -/
def linkTimesheet (timesheetId instanceId : Nat) : Office :=
  match s.timesheets.get? timesheetId with
  | none => s
  | some timesheet =>
    { s with
      timesheets := s.timesheets.set { timesheet with
        status := .pending_manager_review, workflowInstanceId := some instanceId
        submitted := some (s.entriesOf timesheetId) }
      applied := s.applied ++ [(.timesheet timesheetId, .started instanceId)] }

/-- The transaction of `PATCH`. -/
def patch (expenseId : Nat) (lineItems : Option (List LineItem)) (instanceId : Option Nat) :
    Office × Phase :=
  match s.expenses.get? expenseId with
  | none => (s, .done)
  | some found =>
    let report := { found with lineItems := lineItems.getD found.lineItems }
    match instanceId with
    | none => ({ s with expenses := s.expenses.set report }, .done)
    | some instanceId =>
      if report.status.editable then
        ({ s with
          expenses := s.expenses.set { report with
            status := .SUBMITTED, workflowInstanceId := some instanceId
            submitted := some (report.lineItems, report.receiptPath) }
          applied := s.applied ++ [(.expense expenseId, .started instanceId)] }, .done)
      -- the function returns, so the transaction is committed
      else ({ s with expenses := s.expenses.set report }, .cancelling instanceId)

/-- `cancelInstance`. -/
def cancel (instanceId : Nat) : Office :=
  match s.instances[instanceId]? with
  | none => s
  | some inst =>
    match inst.position with
    | .waiting _ =>
      { s with instances := s.instances.set instanceId { inst with position := .cancelled } }
    | .ended _ _ | .cancelled => s

/-- `completeTask`; a task that is not open is refused. -/
def complete (instanceId : Nat) (review : Review) (decision : Decision) : Office × Phase :=
  match s.instances[instanceId]? with
  | none => (s, .done)
  | some inst =>
    if inst.position = .waiting review then
      ({ s with
        instances := s.instances.set instanceId { inst with position := .next review decision }
        committed := s.committed ++ [(inst.document, .decided instanceId review decision)] },
        .finding)
    else (s, .done)

/-- The variable of the instance says in which table its document is looked for. -/
def find (instanceId : Nat) : Phase :=
  match s.instances[instanceId]? with
  | none => .done
  | some inst =>
    match inst.document with
    | .timesheet _ =>
      match s.timesheets.values.find? (·.workflowInstanceId = some instanceId) with
      | none => .done
      | some timesheet => .syncing (.timesheet timesheet.id)
    | .expense _ =>
      match s.expenses.values.find? (·.workflowInstanceId = some instanceId) with
      | none => .done
      | some report => .syncing (.expense report.id)

end Office

/-- `newStatus` of a timesheet. -/
def Review.timesheetStatus : Review → Decision → TimesheetStatus
  | .manager, .approved => .pending_hr_review
  | .second, .approved => .approved
  | _, .revision_requested => .revision_requested
  | _, .rejected => .rejected

/-- `newStatus` of an expense report. -/
def Review.expenseStatus : Review → Decision → ExpenseReportStatus
  | .manager, .approved => .APPROVED_MANAGER
  | .second, .approved => .REIMBURSED
  | _, _ => .REJECTED

def Review.expectedPreviousStatus : Review → ExpenseReportStatus
  | .manager => .SUBMITTED
  | .second => .APPROVED_MANAGER

namespace Office

variable (s : Office)

/-- The status of the document is updated; that of an expense report only if it is the expected
one. -/
def sync (instanceId : Nat) (review : Review) (decision : Decision) : Doc → Office
  | .timesheet id =>
    match s.timesheets.get? id with
    | none => s
    | some timesheet =>
      let status := review.timesheetStatus decision
      { s with
        timesheets := s.timesheets.set { timesheet with
          status, submitted := if status = .revision_requested then none else timesheet.submitted }
        applied := s.applied ++ [(.timesheet id, .decided instanceId review decision)] }
  | .expense id =>
    match s.expenses.get? id with
    | none => s
    | some report =>
      let status := review.expenseStatus decision
      if report.status = review.expectedPreviousStatus then
        { s with
          expenses := s.expenses.set { report with
            status, submitted := if status = .REJECTED then none else report.submitted }
          applied := s.applied ++ [(.expense id, .decided instanceId review decision)] }
      else s

/-- The call that the request waits for is made. -/
def perform : Request → Phase → Office × Phase
  | request, .reading => (s, s.read request)
  | .updateEntry _ timesheetId entryId .., .findingEntry
  | .deleteEntry _ timesheetId entryId, .findingEntry =>
    match s.entries.get? entryId with
    | none => (s, .done)
    | some e => (s, if e.timesheetId = timesheetId then .writing else .done)
  | .patch employeeId _ _ _, .readingManager =>
    (s, if employeeId ∈ s.managed then .starting 0 else .done)
  | request, .writing => (s.write request, .done)
  | .submit _ timesheetId, .starting total =>
    (s.start (.timesheet timesheetId) total, .linking (some s.instances.length))
  | .patch _ expenseId _ _, .starting total =>
    (s.start (.expense expenseId) total, .linking (some s.instances.length))
  | .submit _ timesheetId, .linking (some instanceId) =>
    (s.linkTimesheet timesheetId instanceId, .done)
  | .patch _ expenseId lineItems _, .linking instanceId => s.patch expenseId lineItems instanceId
  | .patch .., .cancelling instanceId => (s.cancel instanceId, .done)
  | .complete instanceId review decision, .completing => s.complete instanceId review decision
  | .complete instanceId _ _, .finding => (s, s.find instanceId)
  | .complete instanceId review decision, .syncing document =>
    (s.sync instanceId review decision document, .done)
  | _, _ => (s, .done)

end Office

/-! ## Runs -/

structure System where
  office : Office
  requests : List (Request × Phase) := []

inductive Happening where
  | request (request : Request)
  /-- The call that the `c`-th request waits for is over. -/
  | go (c : Nat) (outcome : Outcome)
  /-- Employees get managers, or lose them. -/
  | manage (managed : List String)
  /-- The database returns the entries in another order. -/
  | reorder (entries : KeyedMap TimesheetEntry.id)

def System.go (s : System) (c : Nat) (request : Request) (phase : Phase) (outcome : Outcome) :
    System :=
  let (office, next) := s.office.perform request phase
  match outcome with
  | .ok => { office, requests := s.requests.set c (request, next) }
  | .failed => { s with requests := s.requests.set c (request, .done) }
  | .lost => { office, requests := s.requests.set c (request, .done) }

def System.step (s : System) : Happening → Option System
  | .request request => some { s with requests := s.requests ++ [(request, .reading)] }
  | .go c outcome =>
    match s.requests[c]? with
    | none => none
    | some (_, .done) => none
    | some (request, phase) => some (s.go c request phase outcome)
  | .manage managed => some { s with office := { s.office with managed } }
  | .reorder entries =>
    if entries.values.Perm s.office.entries.values then
      some { s with office := { s.office with entries } }
    else none

end NexusWorkflow.Documents
