import NexusWorkflow.Model.UserAdmin

/-!
# The creation of a person

`UserAdmin.create` (`auth/UserAdmin.ts`) with the audit log (`db/AuditLog.ts`): every call is a
transaction of its own, and the person is deleted again if one of them fails.
-/

namespace NexusWorkflow.People

/-- An entry of the audit log about a new person. -/
structure AuditEntry where
  action : String
  actor : Identity
  tenantIds : List String
  target : String
  email : String
  roles : List (MembershipRole × Option String)
  invited : Bool
  deriving DecidableEq

/-- The tables and the audit log. -/
structure Records where
  directory : Directory := {}
  audit : List AuditEntry := []

inductive RecordOp where
  | people (op : PeopleOp)
  | recordStrict (entry : AuditEntry)

abbrev RecordOp.Answer : RecordOp → Type
  | people op => op.Answer
  | recordStrict _ => Unit

/-- What may come of the operation: the result, or an error without an effect, or an error although
the operation has taken effect. -/
def Records.outcomes (o : PeopleOptions) (r : Records) :
    (op : RecordOp) → List (Records × Except StoreError op.Answer)
  | .people op => (r.directory.outcomes o op).map fun (directory, answer) =>
    ({ r with directory }, answer)
  | .recordStrict entry =>
    let written := { r with audit := r.audit ++ [entry] }
    [(written, .ok ()), (r, .error .other), (written, .error .other)]

namespace Audited

abbrev Task := Async RecordOp RecordOp.Answer StoreError

/-- A function on the tables. -/
def onPeople {α : Type} (task : People.Task α) : Task α := task.lift .people fun _ => id

def recordStrict (entry : AuditEntry) : Task Unit := Async.await (RecordOp.recordStrict entry)

/-- The tenants a person belongs to. -/
def tenantsOf (memberships : List MembershipRequest) : List String :=
  (memberships.flatMap fun m => m.tenantId.toList).dedup

def creationEntry (actor : Principal) (user : User) (memberships : List MembershipRequest) :
    AuditEntry where
  action := "user.create"
  actor := actor.identity
  tenantIds := tenantsOf memberships
  target := user.id
  email := user.email
  roles := memberships.map fun m => (m.role, m.tenantId)
  invited := true

/-- Creates a person, gives them roles and issues their invite in one step; `ids` are the random
numbers it draws. -/
def create (o : PeopleOptions) (ids : Nat → String) (actor : Principal)
    (request : CreateUserRequest) : Task (Outcome Invited) := do
  match scopeOf actor with
  | .error failure => return .error failure
  | .ok scope =>
      match UserAdmin.mayNotCreate scope request.memberships with
      | some denied => return .error denied
      | none =>
          match ← onPeople (UserAdmin.validateAll request.memberships) with
          | some invalid => return .error invalid
          | none =>
              match ← onPeople (tryCatch
                  (.ok <$> UserStore.createUser o (ids 0) request.email request.name)
                  UserAdmin.fromStoreError) with
              | .error failure => return .error failure
              | .ok (created : User) =>
                  tryCatch
                    (do
                      let invited ← onPeople (UserAdmin.equip ids scope created.id
                        request.memberships)
                      recordStrict (creationEntry actor invited.user.user request.memberships)
                      return .ok invited)
                    fun err => onPeople do
                      -- do not leave a half-created person behind
                      let _ ← tryCatch (await (.deleteUser created.id)) fun _ => return false
                      UserAdmin.fromStoreError err

end Audited

/-! ## Among others -/

/-- A person is being created. -/
structure Creation where
  records : Records
  process : Process RecordOp RecordOp.Answer StoreError (Except StoreError (Outcome Invited))
  /-- Not in the source: someone else has called an operation while the person held a role. -/
  seen : Bool := false
  /-- Not in the source: a call has failed, or has not found the person. -/
  troubled : Bool := false

/-- The call fails, or it does not find the person. -/
def RecordOp.troubles : (op : RecordOp) → Except StoreError op.Answer → Bool
  | .people (.findById _), answer =>
    match (answer : Except StoreError (Option User)) with
    | .ok found => found.isNone
    | .error _ => true
  | _, answer => !answer.isOk

def Directory.holdsRole (s : Directory) (userId : String) : Bool :=
  s.memberships.values.any fun m => m.userId = userId

inductive CreationStep where
  /-- The call is over; it has come to the outcome of this number. -/
  | own (outcome : Nat)
  | other (op : RecordOp) (outcome : Nat)
  | wait (ms : Nat)

/-- No one else draws the random number of the person. -/
def RecordOp.draws (userId : String) : RecordOp → Bool
  | .people (.createUser id _ _ _) => id = userId
  | _ => false

def Creation.step (o : PeopleOptions) (userId : String) (c : Creation) :
    CreationStep → Option Creation
  | .own k =>
    match c.process with
    | .done _ => none
    | .call op next => ((c.records.outcomes o op)[k]?).map fun (records, answer) =>
        { c with records, process := next answer, troubled := c.troubled || op.troubles answer }
  | .other op k =>
    if op.draws userId then none
    else ((c.records.outcomes o op)[k]?).map fun (records, _) =>
        { c with records, seen := c.seen || c.records.directory.holdsRole userId }
  | .wait ms =>
    some { c with records := { c.records with directory := c.records.directory.wait ms } }

end NexusWorkflow.People
