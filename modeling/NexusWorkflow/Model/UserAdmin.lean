import NexusWorkflow.Model.Http
import NexusWorkflow.Model.People

/-!
# Administration of people

Who is making a request (`auth/principal.ts`), and who may do what to whom (`auth/UserAdmin.ts`).
What an operation writes to the audit log is not modelled: it is part of the transaction, which may
fail.
-/

namespace NexusWorkflow.People

/-! ## Principals -/

/-- Who is making a request, once the credential has been checked. -/
inductive Principal where
  | user (user : User) (memberships : List Membership)
  | apiKey (tenantId keyId keyName : String) (role : KeyRole)
  | adminKey
  | operatorKey (keyId keyName : String)

def isSystemAdmin : Principal → Bool
  | .adminKey => true
  | .user _ memberships => memberships.any fun m => m.role = .systemAdmin
  | _ => false

def isOperator : Principal → Bool
  | .adminKey | .operatorKey _ _ => true
  | .user _ memberships => memberships.any fun m => m.role = .operator || m.role = .systemAdmin
  | _ => false

/-- The tenants a signed-in user is a manager of. -/
def managedTenantIds : Principal → List String
  | .user _ memberships =>
      memberships.flatMap fun m => if m.role = .tenantManager then m.tenantId.toList else []
  | _ => []

def Principal.identity : Principal → Identity
  | .user person _ => .user person.id
  | .apiKey _ keyId _ _ => .apiKey keyId
  | .adminKey => .adminKey
  | .operatorKey keyId _ => .operatorKey keyId

/-! ## Results -/

inductive FailureKind where
  | forbidden | notFound | conflict | invalid
  deriving DecidableEq

structure Failure where
  error : FailureKind
  message : String
  deriving DecidableEq

abbrev Outcome (α : Type) := Except Failure α

def fail {α : Type} (error : FailureKind) (message : String) : Outcome α :=
  .error { error, message }

def keyCannotEscalate : String :=
  "An operator key cannot grant the operator role or reset an operator's access: " ++
    "do that as a system admin"

def operatorsNeedSystemAdmin : String :=
  "Only a system admin can grant the operator role or manage operators"

def systemAdminFromCli : String :=
  "System admins are created and removed from the command line (pnpm system-admin:create), " ++
    "not through the API"

/-! ## Requests -/

structure MembershipRequest where
  role : MembershipRole
  tenantId : Option String

structure CreateUserRequest where
  email : String
  name : String
  memberships : List MembershipRequest := []

structure UserWithMemberships where
  user : User
  memberships : List Membership

structure Invited where
  user : UserWithMemberships
  invite : NewInvite

structure Scope where
  /-- The signed-in user acting, or none for a key. -/
  actorUserId : Option String
  viaOperatorKey : Bool
  operator : Bool
  systemAdmin : Bool
  /-- Tenants a non-operator may administer people in. -/
  managed : List String
  /-- Not in the source: who is told the token of an invite. -/
  actor : Identity

/-! ## Rules -/

def scopeOf : Principal → Outcome Scope
  | .apiKey _ _ _ _ => fail .forbidden "API keys cannot administer people"
  | actor =>
      let operator := isOperator actor
      let managed := managedTenantIds actor
      if operator = false ∧ managed = [] then
        fail .forbidden "Operator or tenant manager role required"
      else
        .ok
          { actorUserId := match actor with | .user user _ => some user.id | _ => none
            viaOperatorKey := match actor with | .operatorKey _ _ => true | _ => false
            operator, systemAdmin := isSystemAdmin actor, managed, actor := actor.identity }

/-- A non-operator may grant a manager role in a tenant they manage, and nothing else. -/
def mayGrant (scope : Scope) (request : MembershipRequest) : Bool :=
  request.role = .tenantManager && request.tenantId.any (· ∈ scope.managed)

/-- Why this actor may not hand out this role, if so. -/
def mayNotGrantRole (scope : Scope) (request : MembershipRequest) : Option Failure :=
  match request.role with
  | .systemAdmin => some ⟨.forbidden, systemAdminFromCli⟩
  | .tenantManager => none
  | .operator =>
      if scope.viaOperatorKey then some ⟨.forbidden, keyCannotEscalate⟩
      else if scope.systemAdmin then none
      else some ⟨.forbidden, operatorsNeedSystemAdmin⟩

/-- Why this actor may not change this person, if so. -/
def mayNotChange (scope : Scope) (target : UserWithMemberships) : Option Failure :=
  if target.memberships.any fun m => m.role = .systemAdmin then
    some ⟨.forbidden, systemAdminFromCli⟩
  else if !scope.systemAdmin && scope.operator &&
      target.memberships.any fun m => m.role = .operator then
    some ⟨.forbidden, if scope.viaOperatorKey then keyCannotEscalate else operatorsNeedSystemAdmin⟩
  else none

/-! ## The store -/

/-- An asynchronous function on the database. -/
abbrev Task := Async PeopleOp PeopleOp.Answer StoreError

def await (op : PeopleOp) : Task op.Answer := Async.await op

/-- The length of a text in UTF-16 units. -/
def utf16Length (text : String) : Nat :=
  (text.toList.map fun c => if c.toNat < 0x10000 then 1 else 2).sum

namespace UserStore

def createUser (o : PeopleOptions) (id email name : String) : Task User :=
  match o.normalizeEmail email with
  | none => throw (.userInput "Invalid email address")
  | some email =>
      let name := o.trim name
      if name = "" then throw (.userInput "Name is required")
      else if 255 < utf16Length name then throw (.userInput "Name must not exceed 255 characters")
      else await (.createUser id email name none)

def addMembership (id userId : String) (role : MembershipRole) (tenantId : Option String) :
    Task Membership :=
  if role ≠ .tenantManager ∧ tenantId.isSome then
    throw (.userInput "An operator or system admin is platform-wide and cannot be tied to a tenant")
  else if role = .tenantManager ∧ tenantId.isNone then
    throw (.userInput "A tenant manager needs a tenant")
  else await (.addMembership id userId role tenantId)

def setStatus (userId : String) : UserStatus → Task Bool
  | .active => await (.activate userId)
  | .disabled => do
      await (.lockToDisable userId)
      await (.disable userId)

def removeMembership (userId membershipId : String) : Task Bool := do
  if ← await (.lockToRemove userId membershipId) then await (.remove userId membershipId)
    else return false

def getWithMemberships (userId : String) : Task (Option UserWithMemberships) := do
  match ← await (.findById userId) with
  | none => return none
  | some user => return some { user, memberships := ← await (.membershipsOf [user.id]) }

def isWithinTenants (userId : String) (tenantIds : List String) : Task Bool :=
  if tenantIds = [] then return false else await (.isWithinTenants userId tenantIds)

def listWithMemberships (withinTenants : Option (List String)) :
    Task (List UserWithMemberships) := do
  if withinTenants = some [] then return []
  else
    let users ← await (.listUsers withinTenants)
    let memberships ← await (.membershipsOf (users.map (·.id)))
    return users.map fun user =>
      { user, memberships := memberships.filter fun m => m.userId = user.id }

end UserStore

/-! ## Operations -/

namespace UserAdmin

/-- The user, if this actor may see and administer them. -/
def reach (scope : Scope) (userId : String) : Task (Outcome UserWithMemberships) := do
  let within ← (if scope.operator then pure true
    else UserStore.isWithinTenants userId scope.managed : Task Bool)
  match ← (if within then UserStore.getWithMemberships userId else pure none : Task _) with
  | some user => return .ok user
  | none => return fail .notFound "User not found"

def validateMembership (request : MembershipRequest) : Task (Option Failure) := do
  match request.role, request.tenantId with
  | .operator, some _ =>
      return some ⟨.invalid, "An operator is platform-wide and cannot be tied to a tenant"⟩
  | .operator, none => return none
  | .tenantManager, none => return some ⟨.invalid, "A tenant manager needs a tenant"⟩
  | .tenantManager, some tenantId =>
      if ← await (.tenantExists tenantId) then return none
        else return some ⟨.invalid, "Tenant not found"⟩
  | .systemAdmin, _ => return some ⟨.invalid, "Unknown role"⟩

def fromStoreError {α : Type} : StoreError → Task (Outcome α)
  | .emailTaken => return fail .conflict "A user with this email already exists"
  | .lastOperator =>
      return fail .conflict "The platform needs at least one active operator or system admin"
  | .userInput message => return fail .invalid message
  | .other => throw .other

def list (actor : Principal) : Task (Outcome (List UserWithMemberships)) := do
  match scopeOf actor with
  | .error failure => return .error failure
  | .ok scope =>
      return .ok (← UserStore.listWithMemberships
        (if scope.operator then none else some scope.managed))

def get (actor : Principal) (userId : String) : Task (Outcome UserWithMemberships) := do
  match scopeOf actor with
  | .error failure => return .error failure
  | .ok scope => reach scope userId

/-- The first membership that is not valid. -/
def validateAll : List MembershipRequest → Task (Option Failure)
  | [] => return none
  | membership :: rest => do
      match ← validateMembership membership with
      | some invalid => return some invalid
      | none => validateAll rest

/-- The new memberships get the ids from this one on. -/
def grantAll (ids : Nat → String) (userId : String) : Nat → List MembershipRequest → Task Unit
  | _, [] => return ()
  | n, membership :: rest => do
      let _ ← UserStore.addMembership (ids n) userId membership.role membership.tenantId
      grantAll ids userId (n + 1) rest

/-- What a person gets once the row is there. -/
def equip (ids : Nat → String) (scope : Scope) (userId : String)
    (memberships : List MembershipRequest) : Task Invited := do
  grantAll ids userId 3 memberships
  let invite ← await (.createInvite (ids 1) userId (ids 2) scope.actor)
  match ← UserStore.getWithMemberships userId with
  | none => throw .other
  | some user => return { user, invite }

/-- Why this actor may not create a person with these roles, if so. -/
def mayNotCreate (scope : Scope) (memberships : List MembershipRequest) : Option Failure :=
  if !scope.operator && memberships.isEmpty then
    some ⟨.forbidden, "Give the new person at least one of your tenants (a manager role)"⟩
  else if !scope.operator && memberships.any fun m => !mayGrant scope m then
    some ⟨.forbidden, "Tenant managers can only grant a manager role in tenants they manage"⟩
  else memberships.findSome? (mayNotGrantRole scope)

/-- Creates a person, gives them roles and issues their invite; `ids` are the random numbers it
draws. -/
def create (o : PeopleOptions) (ids : Nat → String) (actor : Principal)
    (request : CreateUserRequest) : Task (Outcome Invited) := do
  match scopeOf actor with
  | .error failure => return .error failure
  | .ok scope =>
      match mayNotCreate scope request.memberships with
      | some denied => return .error denied
      | none =>
          match ← validateAll request.memberships with
          | some invalid => return .error invalid
          | none =>
              match ← tryCatch (.ok <$> UserStore.createUser o (ids 0) request.email request.name)
                  fromStoreError with
              | .error failure => return .error failure
              | .ok (created : User) =>
                  tryCatch (.ok <$> equip ids scope created.id request.memberships) fun err => do
                    -- do not leave a half-created person behind
                    let _ ← tryCatch (await (.deleteUser created.id)) fun _ => return false
                    fromStoreError err

def setStatus (actor : Principal) (userId : String) (status : UserStatus) :
    Task (Outcome UserWithMemberships) := do
  match scopeOf actor with
  | .error failure => return .error failure
  | .ok scope =>
      match ← reach scope userId with
      | .error failure => return .error failure
      | .ok target =>
          if status = .disabled ∧ scope.actorUserId = some userId then
            return fail .conflict "You cannot disable your own account"
          else
            match mayNotChange scope target with
            | some protectedTarget => return .error protectedTarget
            | none =>
                match ← tryCatch (.ok <$> UserStore.setStatus userId status) fromStoreError with
                | .error failure => return .error failure
                | .ok (_ : Bool) => reach scope userId

def addMembership (ids : Nat → String) (actor : Principal) (userId : String)
    (request : MembershipRequest) : Task (Outcome Membership) := do
  match scopeOf actor with
  | .error failure => return .error failure
  | .ok scope =>
      match ← reach scope userId with
      | .error failure => return .error failure
      | .ok target =>
          if !scope.operator && !mayGrant scope request then
            return fail .forbidden
              "Tenant managers can only grant a manager role in tenants they manage"
          else if scope.operator && scope.actorUserId = some userId && request.role =
            .tenantManager then
            return fail .forbidden
              ("An operator cannot grant themselves a tenant role; " ++
                "ask another operator to add the membership")
          else
            match (mayNotGrantRole scope request).or (mayNotChange scope target) with
            | some denied => return .error denied
            | none =>
                match ← validateMembership request with
                | some invalid => return .error invalid
                | none =>
                    tryCatch (.ok <$> UserStore.addMembership
                      (ids 0) userId request.role request.tenantId)
                      fromStoreError

def removeMembership (actor : Principal) (userId membershipId : String) : Task (Outcome Unit) := do
  match scopeOf actor with
  | .error failure => return .error failure
  | .ok scope =>
      match ← reach scope userId with
      | .error failure => return .error failure
      | .ok target =>
          match target.memberships.find? fun m => m.id = membershipId with
          | none => return fail .notFound "Membership not found"
          | some membership =>
              if scope.actorUserId = some userId ∧
                  (membership.role = .operator ∨ target.memberships.length = 1) then
                return fail .conflict
                  ("You cannot remove your own operator role or your last role; " ++
                    "ask another administrator")
              else
                match mayNotChange scope target with
                | some protectedTarget => return .error protectedTarget
                | none =>
                    match ← tryCatch (.ok <$> UserStore.removeMembership userId membershipId)
                      fromStoreError with
                    | .error failure => return .error failure
                    | .ok (_ : Bool) => return .ok ()

/-- Issues a new invite and retires the previous one. -/
def reinvite (ids : Nat → String) (actor : Principal) (userId : String) :
    Task (Outcome Invited) := do
  match scopeOf actor with
  | .error failure => return .error failure
  | .ok scope =>
      match ← reach scope userId with
      | .error failure => return .error failure
      | .ok target =>
          if target.user.status ≠ .active then
            return fail .conflict "Enable the account before inviting the person again"
          else
            match mayNotChange scope target with
            | some protectedTarget => return .error protectedTarget
            | none => do
                let invite ← await (.createInvite (ids 1) userId (ids 2) scope.actor)
                return .ok { user := target, invite }

end UserAdmin

end NexusWorkflow.People
