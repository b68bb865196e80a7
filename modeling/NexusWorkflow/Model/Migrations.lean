import NexusWorkflow.Lib.Processes
import NexusWorkflow.Model.Tenants

/-!
# Migrations of the tenants' schemas

`migrateTenantSchema` and `migrateAllTenants` (`db/tenantMigrations.ts`) for any list of migrations.
The transaction of one migration holds the advisory lock of its schema from its first statement to
its end, so it is atomic: it is committed as a whole, or not at all.
-/

namespace NexusWorkflow.Migrations

open Tenancy (TenantStatus validTenantId schemaName)

variable {T : Type}

/-! ## The database -/

/-- One step in the life of a tenant schema. -/
structure TenantMigration (T : Type) where
  version : String
  run : String → T → Except String T

structure TenantSchema (T : Type) where
  name : String
  /-- All but `schema_migrations`. -/
  tables : T
  schemaMigrations : List String := []
  /-- Not in the database: the migrations that have been run to completion here. -/
  ran : List String := []

/-- A row of `public.tenants`. -/
structure TenantRow where
  id : String
  status : TenantStatus

structure Database (T : Type) where
  schemas : KeyedMap (TenantSchema.name : TenantSchema T → String) := ∅
  tenants : List TenantRow := []

def Database.recorded (db : Database T) (name : String) : List String :=
  ((db.schemas.get? name).map TenantSchema.schemaMigrations).getD []

def Database.ran (db : Database T) (name : String) : List String :=
  ((db.schemas.get? name).map TenantSchema.ran).getD []

/-- A schema that is not there is created empty. -/
def Database.tables [Inhabited T] (db : Database T) (name : String) : T :=
  ((db.schemas.get? name).map TenantSchema.tables).getD default

/-! ## The transaction of one migration -/

inductive MigrationError where
  | invalidName (schemaName : String)
  | migrationFailed (version cause : String)
  | uniqueViolation
  | connectionLost

/-- Statements on a schema in a transaction, which is rolled back when one of them throws. -/
abbrev Transaction (T : Type) := StateT (TenantSchema T) (Except MigrationError)

def isRecorded (version : String) : Transaction T Bool := do
  return version ∈ (← get).schemaMigrations

/-- `version` is the primary key. -/
def record (version : String) : Transaction T Unit := do
  let schema ← get
  if version ∈ schema.schemaMigrations then throw .uniqueViolation
  else set { schema with schemaMigrations := schema.schemaMigrations ++ [version] }

def runMigration (migration : TenantMigration T) : Transaction T Unit := do
  let schema ← get
  match migration.run schema.name schema.tables with
  | .error cause => throw (.migrationFailed migration.version cause)
  | .ok tables => set { schema with tables, ran := schema.ran ++ [migration.version] }

/-- What `migrateTenantSchema` does for one migration once it holds the lock; whether it has applied
it. -/
def migrateOnce (migration : TenantMigration T) : Transaction T Bool := do
  if ← isRecorded migration.version then return false
  else do
    runMigration migration
    record migration.version
    return true

/-! ## Operations -/

inductive MigrationOp (T : Type) where
  /-- The ids of the tenants that are not being deleted and whose schema exists. -/
  | listTenants
  | transaction (name : String) (migration : TenantMigration T)

abbrev MigrationOp.Answer : MigrationOp T → Type
  | listTenants => List String
  | transaction _ _ => Bool

namespace Database

variable (db : Database T)

def listTenants : List String :=
  let migrated := db.tenants.filter fun t =>
    t.status ≠ .deleting ∧ (db.schemas.get? (schemaName t.id)).isSome
  (migrated.map TenantRow.id).mergeSort

variable [Inhabited T]

def schema (name : String) : TenantSchema T :=
  (db.schemas.get? name).getD { name, tables := default }

/-- What may come of the operation.  The connection may be lost before the transaction is committed,
or after it. -/
def outcomes : (op : MigrationOp T) → List (Database T × Except MigrationError op.Answer)
  | .listTenants => [(db, .ok db.listTenants), (db, .error .connectionLost)]
  | .transaction name migration =>
      match (migrateOnce migration).run (db.schema name) with
      | .ok (applied, schema) =>
          let committed := { db with schemas := db.schemas.set schema }
          [(committed, .ok applied), (committed, .error .connectionLost),
            (db, .error .connectionLost)]
      | .error e => [(db, .error e), (db, .error .connectionLost)]

end Database

/-- Tenants are created, suspended, activated and deleted. -/
structure TenantsChange where
  tenants : List TenantRow

def TenantsChange.apply (change : TenantsChange) (db : Database T) : Database T :=
  { db with tenants := change.tenants }

/-! ## Runners -/

/-- An asynchronous function on the database. -/
abbrev Task (T : Type) := Async (MigrationOp T) MigrationOp.Answer MigrationError

def await (op : MigrationOp T) : Task T op.Answer := Async.await op

/-- `VALID_SCHEMA`. -/
def validSchema (name : String) : Bool :=
  "tenant_".toList.isPrefixOf name.toList && validTenantId (String.ofList (name.toList.drop 7))

/-- One turn of the loop of `migrateTenantSchema`. -/
def applyMigration (name : String) (applied : List String) (migration : TenantMigration T) :
    Task T (List String) := do
  if ← await (.transaction name migration) then return applied ++ [migration.version]
  else return applied

/-- The versions applied by this call. -/
def migrateTenantSchema (name : String) (migrations : List (TenantMigration T)) :
    Task T (List String) :=
  if validSchema name then migrations.foldlM (applyMigration name) []
  else throw (.invalidName name)

structure TenantMigrationFailure where
  tenantId : String
  error : MigrationError

/-- `TenantSchemaHealth`. -/
abbrev TenantSchemaHealth := KeyedMap TenantMigrationFailure.tenantId

structure MigrateAllTenantsResult where
  upToDate : List String := []
  failed : List TenantMigrationFailure := []
  health : TenantSchemaHealth

def MigrateAllTenantsResult.markCurrent (result : MigrateAllTenantsResult) (id : String) :
    MigrateAllTenantsResult :=
  { result with upToDate := result.upToDate ++ [id], health := result.health.erase id }

def MigrateAllTenantsResult.markBehind (result : MigrateAllTenantsResult) (id : String)
    (error : MigrationError) : MigrateAllTenantsResult :=
  { result with failed := result.failed ++ [⟨id, error⟩], health := result.health.set ⟨id, error⟩ }

/-- One turn of the loop of `migrateAllTenants`. -/
def migrateTenant (migrations : List (TenantMigration T)) (result : MigrateAllTenantsResult)
    (id : String) : Task T MigrateAllTenantsResult :=
  tryCatch (do
      let _ ← migrateTenantSchema (schemaName id) migrations
      return result.markCurrent id)
    fun e => return result.markBehind id e

def migrateAllTenants (migrations : List (TenantMigration T)) (health : TenantSchemaHealth) :
    Task T MigrateAllTenantsResult := do
  let tenants ← await .listTenants
  tenants.foldlM (migrateTenant migrations) { health }

inductive Reply where
  | applied (versions : List String)
  | all (result : MigrateAllTenantsResult)

/-- A runner. -/
inductive Runner (T : Type) where
  | tenant (name : String) (migrations : List (TenantMigration T))
  | all (migrations : List (TenantMigration T)) (health : TenantSchemaHealth)

def Runner.task : Runner T → Task T Reply
  | tenant name migrations => .applied <$> migrateTenantSchema name migrations
  | all migrations health => .all <$> migrateAllTenants migrations health

/-- A run; it ends with which runner it was and what it has returned or thrown. -/
def Runner.program (runner : Runner T) :
    Process (MigrationOp T) MigrationOp.Answer MigrationError
      (Runner T × Except MigrationError Reply) :=
  (runner, ·) <$> runner.task.run

/-- The database and the runs under way. -/
abbrev Fleet (T : Type) :=
  World (Database T) (MigrationOp T) MigrationOp.Answer MigrationError
    (Runner T × Except MigrationError Reply)

/-! ## The list of the source -/

instance : Inhabited Tenancy.Schema := ⟨{ name := "" }⟩

/-- `TENANT_MIGRATIONS`. -/
def tenantMigrations : List (TenantMigration Tenancy.Schema) :=
  Tenancy.tenantMigrations.map fun migration =>
    { version := migration.version
      run := fun _ schema => (migration.run schema).elim (.error "relation does not exist") .ok }

end NexusWorkflow.Migrations
