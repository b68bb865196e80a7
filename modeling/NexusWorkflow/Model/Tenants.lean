import NexusWorkflow.Model.Parser
import NexusWorkflow.Model.UserAdmin

/-!
# The registry of tenants

The tables of tenants and their keys and the schemas beside them (`db/TenantStore.ts`,
`db/tenantProvisioner.ts`, `db/tenantMigrations.ts`), and the routes that create, change and delete
a tenant and create keys for it (`http/tenants.ts`), past their guard.  An operation is a statement
or a transaction, and atomic.
-/

namespace NexusWorkflow.Tenancy

/-! ## Rows -/

inductive TenantStatus where
  | active | suspended | deleting
  deriving DecidableEq

structure Tenant where
  id : String
  name : String
  status : TenantStatus
  createdAt : Time
  /-- Not in the table: how many tenants have been created before this one. -/
  serial : Nat
  deriving DecidableEq

structure ApiKey where
  id : String
  tenantId : String
  name : String
  role : KeyRole
  createdBy : Option String
  keyHash : String
  createdAt : Time
  lastUsedAt : Option Time := none
  revokedAt : Option Time := none
  deriving DecidableEq

/-- What the migrations have made of a schema. -/
structure Schema where
  name : String
  /-- The table `schema_migrations`. -/
  applied : List String := []
  tables : List String := []
  /-- `instances` has the column `version`. -/
  versioned : Bool := false
  deriving DecidableEq

inductive AuditActor where
  | user (id label : String)
  | adminKey
  | operatorKey (id label : String)
  | apiKey (id label : String)

/-- An entry of the audit log. -/
structure AuditInput where
  action : String
  actor : AuditActor
  tenantIds : List String
  target : String
  details : List (String × String) := []

/-- What can be lost of a tenant. -/
inductive Part where
  | schema | keys | row
  deriving DecidableEq

/-- A part of a tenant that a request has destroyed. -/
structure Loss where
  part : Part
  tenant : Tenant
  /-- How many tenants had been created when the request looked for the tenant. -/
  creations : Nat
  deriving DecidableEq

/-- The tenant was there when the request that has destroyed the part looked for it. -/
def Loss.Foreseen (loss : Loss) : Prop := loss.tenant.serial < loss.creations

instance (loss : Loss) : Decidable loss.Foreseen := by unfold Loss.Foreseen; infer_instance

/-- The database.  A key belongs to a tenant. -/
structure Registry where
  tenants : KeyedMap Tenant.id := ∅
  apiKeys : KeyedMap ApiKey.id := ∅
  schemas : KeyedMap Schema.name := ∅
  audit : List AuditInput := []
  now : Time := 0
  /-- Not in the database: how many tenants have been created. -/
  creations : Nat := 0
  /-- Not in the database: what has been destroyed. -/
  losses : List Loss := []
  numbered : ∀ t ∈ tenants.values, t.serial < creations := by simp
  owned : ∀ k ∈ apiKeys.values, (tenants.get? k.tenantId).isSome := by simp

/-! ## Schemas -/

/-- `VALID_TENANT_ID`. -/
def validTenantId (id : String) : Bool :=
  id ≠ "" && id.toList.all fun c => c.isAlphanum || c = '_' || c = '-'

def schemaName (tenantId : String) : String := "tenant_" ++ tenantId

structure TenantMigration where
  version : String
  run : Schema → Option Schema

def createTenantSchema (schema : Schema) : Schema :=
  { schema with
    tables := schema.tables ∪
      ["definitions", "instances", "tokens", "variable_scopes", "user_tasks", "event_subscriptions",
        "gateway_join_states", "history_entries", "scheduled_timers", "compensation_records",
          "execution_events",
        "webhook_registrations"] }

/-- `TENANT_MIGRATIONS`. -/
def tenantMigrations : List TenantMigration :=
  [{ version := "001_baseline", run := fun schema => some (createTenantSchema schema) },
    { version := "002_instance_version"
      run := fun schema =>
        if "instances" ∈ schema.tables then some { schema with versioned := true } else none }]

/-! ## Operations -/

/-- `changes` of `updateTenant`. -/
structure TenantChanges where
  name : Option String := none
  status : Option TenantStatus := none

/-- What has been found. -/
structure Seen (α : Type) where
  value : α
  /-- Not in the source: how many tenants had been created by then. -/
  creations : Nat

/-- `createdBy` and the role of a key that is created, and who is written down for it. -/
structure NewKey where
  id : String
  tenantId : String
  name : String
  keyHash : String
  role : KeyRole
  actor : AuditActor

inductive TenantOp where
  | createTenant (id name : String)
  | getTenant (id : String)
  | updateTenant (id : String) (changes : TenantChanges)
  | markTenantDeleting (id : String)
  | deleteTenantAndKeys (id : String) (creations : Nat)
  | deleteTenant (id : String) (creations : Nat)
  | createApiKey (key : NewKey)
  /-- The transaction of `migrateTenantSchema` for one migration. -/
  | migrate (tenantId : String) (migration : TenantMigration)
  | dropSchema (tenantId : String) (creations : Nat)
  | insertAudit (entry : AuditInput)
  /-- `onTenantDeactivating` of the host: nothing in the database changes. -/
  | deactivating (tenantId : String)

inductive DbError where
  | uniqueViolation
  | other
  deriving DecidableEq

/-- What the operation returns. -/
abbrev TenantOp.Answer : TenantOp → Type
  | createTenant _ _ => Seen Tenant
  | getTenant _ => Seen (Option Tenant)
  | updateTenant _ _ => Option Tenant
  | markTenantDeleting _ | deleteTenantAndKeys _ _ => Bool
  | createApiKey _ => ApiKey
  | deleteTenant _ _ | migrate _ _ | dropSchema _ _ | insertAudit _ | deactivating _ => Unit

theorem isSome_get?_set {tenants : KeyedMap Tenant.id} {t : Tenant} {k : String}
    (h : (tenants.get? k).isSome) : ((tenants.set t).get? k).isSome := by
  rw [KeyedMap.get?_set]
  split_ifs
  · rfl
  · exact h

def keyRoleName : KeyRole → String
  | .service => "service"
  | .tenantManager => "tenant_manager"

namespace Registry

variable (s : Registry)

/-- A new row. -/
def insertTenant (id name : String) : Registry :=
  let tenant : Tenant := { id, name, status := .active, createdAt := s.now, serial := s.creations }
  { s with tenants := s.tenants.set tenant
           creations := s.creations + 1
           numbered := fun t ht => by
             rcases KeyedMap.mem_set.1 ht with rfl | ⟨ht, -⟩
             · exact Nat.lt_succ_self _
             · exact Nat.lt_succ_of_lt (s.numbered t ht)
           owned := fun k hk => isSome_get?_set (s.owned k hk) }

/-- A row that is there, changed. -/
def setTenant (t t' : Tenant) (ht : s.tenants.get? t.id = some t) (h : t'.serial = t.serial) :
    Registry :=
  { s with tenants := s.tenants.set t'
           numbered := fun x hx => by
             rcases KeyedMap.mem_set.1 hx with rfl | ⟨hx, -⟩
             · exact h ▸ s.numbered t (KeyedMap.mem_of_get? ht)
             · exact s.numbered x hx
           owned := fun k hk => isSome_get?_set (s.owned k hk) }

/-- The row and the keys that refer to it. -/
def eraseTenant (id : String) : Registry :=
  { s with tenants := s.tenants.erase id
           apiKeys := s.apiKeys.keep fun k => k.tenantId ≠ id
           numbered := fun t ht => s.numbered t (KeyedMap.mem_erase.1 ht).1
           owned := fun k hk => by
             obtain ⟨hk, hne⟩ := List.mem_filter.1 hk
             rw [KeyedMap.get?_erase_of_ne _ (Ne.symm (of_decide_eq_true hne))]
             exact s.owned k hk }

/-- The parts of the tenant are gone. -/
def lose (parts : List Part) (id : String) (creations : Nat) : Registry :=
  { s with losses := s.losses ++ ((s.tenants.get? id).toList.flatMap fun tenant =>
      parts.map fun part => { part, tenant, creations }) }

def createTenant (id name : String) : Registry × Except DbError (Seen Tenant) :=
  if (s.tenants.get? id).isSome then (s, .error .uniqueViolation)
  else
    (s.insertTenant id name, .ok
      { value := { id, name, status := .active, createdAt := s.now, serial := s.creations }
        creations := s.creations + 1 })

def getTenant (id : String) : Seen (Option Tenant) :=
  { value := s.tenants.get? id, creations := s.creations }

/-- A tenant that is being deleted is not changed. -/
def updateTenant (id : String) (changes : TenantChanges) : Registry × Option Tenant :=
  match h : s.tenants.get? id with
  | none => (s, none)
  | some t =>
      if t.status = .deleting then (s, none)
      else
        let t' :=
          { t with name := changes.name.getD t.name, status := changes.status.getD t.status }
        (s.setTenant t t' ((KeyedMap.key_of_get? h).symm ▸ h) rfl, some t')

def markTenantDeleting (id : String) : Registry × Bool :=
  match h : s.tenants.get? id with
  | none => (s, false)
  | some t => (s.setTenant t { t with status := .deleting } ((KeyedMap.key_of_get? h).symm ▸ h) rfl,
      true)

def hasKeys (id : String) : Bool := s.apiKeys.values.any fun k => k.tenantId = id

def deleteTenantAndKeys (id : String) (creations : Nat) : Registry × Bool :=
  let parts : List Part := if s.hasKeys id then [.keys, .row] else [.row]
  ((s.lose parts id creations).eraseTenant id, (s.tenants.get? id).isSome)

/-- A row that keys refer to cannot be deleted alone. -/
def deleteTenant (id : String) (creations : Nat) : Registry × Except DbError Unit :=
  if s.hasKeys id then (s, .error .other)
  else ((s.lose [.row] id creations).eraseTenant id, .ok ())

/-- With the entry in the audit log, in one transaction. -/
def createApiKey (key : NewKey) : Registry × Except DbError ApiKey :=
  let createdBy := match key.actor with
    | .user id _ => some id
    | _ => none
  let row : ApiKey :=
    { id := key.id, tenantId := key.tenantId, name := key.name, role := key.role, createdBy,
      keyHash := key.keyHash, createdAt := s.now }
  let entry : AuditInput :=
    { action := "key.create", actor := key.actor, tenantIds := [key.tenantId], target := key.id
      details := [("name", key.name), ("role", keyRoleName key.role)] }
  if s.apiKeys.values.any fun k => k.id = key.id || k.keyHash = key.keyHash then
    (s, .error .uniqueViolation)
  else if h : (s.tenants.get? key.tenantId).isSome then
    ({ s with apiKeys := s.apiKeys.set row
              audit := s.audit ++ [entry]
              owned := fun k hk => by
                rcases KeyedMap.mem_set.1 hk with rfl | ⟨hk, -⟩
                · exact h
                · exact s.owned k hk }, .ok row)
  else (s, .error .other)

/-- The schema is made if it is not there, and a migration that is not recorded yet is run and
recorded. -/
def migrate (tenantId : String) (migration : TenantMigration) : Registry × Except DbError Unit :=
  let schema := (s.schemas.get? (schemaName tenantId)).getD { name := schemaName tenantId }
  if migration.version ∈ schema.applied then ({ s with schemas := s.schemas.set schema }, .ok ())
  else
    match migration.run schema with
    | none => (s, .error .other)
    | some migrated =>
        let schema := { migrated with applied := migrated.applied ++ [migration.version] }
        ({ s with schemas := s.schemas.set schema }, .ok ())

def dropSchema (tenantId : String) (creations : Nat) : Registry :=
  if (s.schemas.get? (schemaName tenantId)).isSome then
    { s.lose [.schema] tenantId creations with schemas := s.schemas.erase (schemaName tenantId) }
  else s

def exec : (op : TenantOp) → Registry × Except DbError op.Answer
  | .createTenant id name => s.createTenant id name
  | .getTenant id => (s, .ok (s.getTenant id))
  | .updateTenant id changes => ((s.updateTenant id changes).1, .ok (s.updateTenant id changes).2)
  | .markTenantDeleting id => ((s.markTenantDeleting id).1, .ok (s.markTenantDeleting id).2)
  | .deleteTenantAndKeys id creations =>
      ((s.deleteTenantAndKeys id creations).1, .ok (s.deleteTenantAndKeys id creations).2)
  | .deleteTenant id creations => s.deleteTenant id creations
  | .createApiKey key => s.createApiKey key
  | .migrate tenantId migration => s.migrate tenantId migration
  | .dropSchema tenantId creations => (s.dropSchema tenantId creations, .ok ())
  | .insertAudit entry => ({ s with audit := s.audit ++ [entry] }, .ok ())
  | .deactivating _ => (s, .ok ())

/-- What may come of the operation: the result, or an error without an effect, or an error although
the operation has taken effect. -/
def outcomes (op : TenantOp) : List (Registry × Except DbError op.Answer) :=
  [s.exec op, (s, .error .other), ((s.exec op).1, .error .other)]

/-- Time passes. -/
def wait (ms : Nat) (s : Registry) : Registry := { s with now := s.now + ms }

end Registry

/-- An asynchronous function on the database. -/
abbrev Task := Async TenantOp TenantOp.Answer DbError

def await (op : TenantOp) : Task op.Answer := Async.await op

/-- `AuditLog.record`: what fails is only reported. -/
def record (entry : AuditInput) : Task Unit :=
  tryCatch (await (.insertAudit entry)) fun _ => pure ()

/-- `AuditLog.recordStrict`. -/
def recordStrict (entry : AuditInput) : Task Unit := await (.insertAudit entry)

/-- `provisionTenantSchema`: the migrations one after the other. -/
def provisionTenantSchema (tenantId : String) : Task Unit :=
  if validTenantId tenantId then
    tenantMigrations.forM fun migration => await (.migrate tenantId migration)
  else throw .other

def dropTenantSchema (tenantId : String) (creations : Nat) : Task Unit :=
  if validTenantId tenantId then await (.dropSchema tenantId creations)
  else throw .other

/-! ## Routes -/

/-- What a route returns. -/
inductive Response where
  | error (status : Nat) (code message : String)
  | tenant (status : Nat) (tenant : Tenant)
  | key (status : Nat) (key : ApiKey)
  | success

def auditActorOf : People.Principal → AuditActor
  | .user person _ => .user person.id person.email
  | .adminKey => .adminKey
  | .operatorKey keyId keyName => .operatorKey keyId keyName
  | .apiKey tenantId keyId keyName _ => .apiKey keyId (keyName ++ " (key of " ++ tenantId ++ ")")

/-- `actorOf`: without a principal it is the admin key. -/
def actorOf (principal : Option People.Principal) : AuditActor :=
  (principal.map auditActorOf).getD .adminKey

def mayGrantManagerKey (principal : Option People.Principal) : Bool :=
  principal.all People.isSystemAdmin

def field (fields : List (String × Value)) (name : String) : Value :=
  ((fields.find? (·.1 = name)).map (·.2)).getD .undefined

/-- The fields of the body of a request, `none` if it is no JSON. -/
def readBody : Option Value → Except Response (List (String × Value))
  | none => .error (.error 400 "VALIDATION_ERROR" "Invalid JSON body")
  | some (.object fields) => .ok fields
  | some _ => .error (.error 400 "VALIDATION_ERROR" "Body must be a JSON object")

def readId : Value → Except Response String
  | .string id =>
      if trim id = "" then
        .error (.error 400 "VALIDATION_ERROR" "\"id\" must be a non-empty string")
      else .ok id
  | _ => .error (.error 400 "VALIDATION_ERROR" "\"id\" must be a non-empty string")

def readName : Value → Except Response String
  | .string name =>
      if trim name = "" then
        .error (.error 400 "VALIDATION_ERROR" "\"name\" must be a non-empty string")
      else if 255 < People.utf16Length name then
        .error (.error 400 "VALIDATION_ERROR" "\"name\" must not exceed 255 characters")
      else .ok name
  | _ => .error (.error 400 "VALIDATION_ERROR" "\"name\" must be a non-empty string")

/-- The body of `POST /tenants`. -/
def readNewTenant (body : Option Value) : Except Response (String × String) := do
  let fields ← readBody body
  -- the id is looked at before the name, and its characters after it
  let id ← readId (field fields "id")
  let name ← readName (field fields "name")
  if validTenantId id then return (id, name)
  else throw (.error 400 "VALIDATION_ERROR" ("Invalid tenantId: \"" ++ id ++
    "\". Only alphanumeric characters, hyphens, and underscores are allowed."))

def notFound (id : String) : Response := .error 404 "NOT_FOUND" ("Tenant '" ++ id ++ "' not found")

/-- `POST /tenants`, once the row is there. -/
def provisionTenant (principal : Option People.Principal) (id : String) (created : Seen Tenant) :
    Task Response := do
  let provisioned ← (tryCatch (do provisionTenantSchema id; return true) fun _ => do
    -- the row goes again, so that the request can be repeated
    tryCatch (await (.deleteTenant id created.creations)) fun _ => pure ()
    return false : Task Bool)
  if provisioned then do
    record
      { action := "tenant.create", actor := actorOf principal, tenantIds := [id], target := id
        details := [("name", created.value.name)] }
    return .tenant 201 created.value
  else
    return .error 500 "PROVISIONING_FAILED"
      ("Failed to provision schema for tenant '" ++ id ++ "'")

/-- `POST /tenants`. -/
def postTenant (principal : Option People.Principal) (body : Option Value) : Task Response :=
  match readNewTenant body with
  | .error response => pure response
  | .ok (id, name) => do
      let created ← (tryCatch (Except.ok <$> await (.createTenant id name)) fun e =>
        if e = .uniqueViolation then
          pure (.error (.error 409 "CONFLICT" ("Tenant '" ++ id ++ "' already exists")))
        else throw e : Task (Except Response (Seen Tenant)))
      match created with
      | .error response => return response
      | .ok created => provisionTenant principal id created

/-- The status in the body of `PATCH /tenants/:id`. -/
def readStatus : Value → Except Response (Option TenantStatus)
  | .undefined => .ok none
  | .string "active" => .ok (some .active)
  | .string "suspended" => .ok (some .suspended)
  | _ => .error (.error 400 "VALIDATION_ERROR" "\"status\" must be \"active\" or \"suspended\"")

/-- The body of `PATCH /tenants/:id`. -/
def readChanges (body : Option Value) : Except Response TenantChanges := do
  let fields ← readBody body
  let name ← (match field fields "name" with
    | .undefined => pure none
    | value => (fun name => some (trim name)) <$> readName value : Except Response (Option String))
  let status ← readStatus (field fields "status")
  if name.isNone && status.isNone then
    throw (.error 400 "VALIDATION_ERROR" "Provide \"name\" and/or \"status\"")
  else return { name, status }

/-- `PATCH /tenants/:id`. -/
def patchTenant (principal : Option People.Principal) (id : String) (body : Option Value) :
    Task Response :=
  match readChanges body with
  | .error response => pure response
  | .ok changes => do
      match ← await (.updateTenant id changes) with
      | none => do
          let found ← await (.getTenant id)
          if found.value.isSome then
            return .error 409 "CONFLICT"
              ("Tenant '" ++ id ++ "' is being deleted and cannot be changed")
          else return notFound id
      | some tenant => do
          -- the status is stored: what fails now is only reported
          (if changes.status = some .suspended then
            tryCatch (await (.deactivating id)) fun _ => pure ()
          else pure () : Task Unit)
          let actor := actorOf principal
          (match changes.status with
            | none => pure ()
            | some status =>
                record
                  { action := if status = .suspended then "tenant.suspend" else "tenant.reactivate"
                    actor, tenantIds := [id], target := id } : Task Unit)
          (match changes.name with
            | none => pure ()
            | some name =>
                record
                  { action := "tenant.rename", actor, tenantIds := [id], target := id
                    details := [("name", name)] } : Task Unit)
          return .tenant 200 tenant

def protectedTenantId : String := "default"

/-- `DELETE /tenants/:id`, once the tenant has been found. -/
def destroyTenant (principal : Option People.Principal) (id : String) (creations : Nat) :
    Task Response := do
  let actor := actorOf principal
  recordStrict { action := "tenant.delete.requested", actor, tenantIds := [id], target := id }
  let deleted ← (tryCatch (do
      let _ ← await (.markTenantDeleting id)
      await (.deactivating id)
      dropTenantSchema id creations
      let _ ← await (.deleteTenantAndKeys id creations)
      return true)
    fun _ => return false : Task Bool)
  if deleted then do
    record { action := "tenant.delete", actor, tenantIds := [id], target := id }
    return .success
  else
    return .error 500 "DELETE_FAILED"
      ("Failed to delete tenant '" ++ id ++ "'; it is marked \"deleting\" — retry the DELETE")

/-- `DELETE /tenants/:id`. -/
def deleteTenant (principal : Option People.Principal) (id : String) : Task Response :=
  if id = protectedTenantId then
    pure (.error 409 "CONFLICT" ("The '" ++ protectedTenantId ++ "' tenant cannot be deleted"))
  else do
    let found ← await (.getTenant id)
    if found.value.isNone then return notFound id
    else destroyTenant principal id found.creations

/-- The role in the body of `POST /tenants/:id/keys`: least privilege unless one is asked for. -/
def readRole : Value → Except Response KeyRole
  | .undefined | .string "service" => .ok .service
  | .string "tenant_manager" => .ok .tenantManager
  | _ => .error (.error 400 "VALIDATION_ERROR" "\"role\" must be one of: service, tenant_manager")

def readNewKey (body : Option Value) : Except Response (String × KeyRole) := do
  let fields ← readBody body
  let name ← readName (field fields "name")
  return (name, ← readRole (field fields "role"))

/-- `POST /tenants/:id/keys`; the id and the hash of the key are drawn at random. -/
def postKey (principal : Option People.Principal) (tenantId : String) (body : Option Value)
    (keyId keyHash : String) : Task Response :=
  match readNewKey body with
  | .error response => pure response
  | .ok (name, role) =>
      if role = .tenantManager && !mayGrantManagerKey principal then
        pure (.error 403 "FORBIDDEN"
          ("Only a system admin can create a key with the \"tenant_manager\" role, " ++
            "or raise a key to it"))
      else do
        match (← await (.getTenant tenantId)).value with
        | none => return notFound tenantId
        | some tenant =>
            if tenant.status ≠ .active then
              return .error 403 "FORBIDDEN" ("Tenant '" ++ tenantId ++ "' is not active")
            else
              .key 201 <$> await (.createApiKey
                { id := keyId, tenantId, name := trim name, keyHash, role
                  actor := actorOf principal })

inductive TenantRequest where
  | postTenant (principal : Option People.Principal) (body : Option Value)
  | patchTenant (principal : Option People.Principal) (id : String) (body : Option Value)
  | deleteTenant (principal : Option People.Principal) (id : String)
  | postKey (principal : Option People.Principal) (tenantId : String) (body : Option Value)
      (keyId keyHash : String)

/-- A request under way. -/
abbrev TenantProcess := Process TenantOp TenantOp.Answer DbError (Except DbError Response)

def TenantRequest.program : TenantRequest → TenantProcess
  | postTenant principal body => (Tenancy.postTenant principal body).run
  | patchTenant principal id body => (Tenancy.patchTenant principal id body).run
  | deleteTenant principal id => (Tenancy.deleteTenant principal id).run
  | postKey principal tenantId body keyId keyHash =>
    (Tenancy.postKey principal tenantId body keyId keyHash).run

/-- The database and the requests under way. -/
abbrev Registration := World Registry TenantOp TenantOp.Answer DbError (Except DbError Response)

end NexusWorkflow.Tenancy
