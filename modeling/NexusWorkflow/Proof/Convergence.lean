import NexusWorkflow.Lib.Interference
import NexusWorkflow.Model.Migrations

/-!
# Migrations converge

Every schema has run the first migrations of its list, in order, each once, and has recorded them; a
runner that has come to a migration knows that the ones before it are recorded.
-/

namespace NexusWorkflow.Migrations

open Tenancy (schemaName)

variable {T : Type} {name : String}

/-! ## One transaction -/

/-- The schema once the migration has made these tables, and is recorded. -/
def TenantSchema.migrated (schema : TenantSchema T) (version : String) (tables : T) :
    TenantSchema T where
  name := schema.name
  tables := tables
  schemaMigrations := schema.schemaMigrations ++ [version]
  ran := schema.ran ++ [version]

/-- A migration that is recorded is skipped; another one is run and recorded. -/
theorem run_migrateOnce {migration : TenantMigration T} {schema : TenantSchema T} :
    (migrateOnce migration).run schema =
      if migration.version ∈ schema.schemaMigrations then .ok (false, schema)
      else
        match migration.run schema.name schema.tables with
        | .error cause => .error (.migrationFailed migration.version cause)
        | .ok tables => .ok (true, schema.migrated migration.version tables) := by
  by_cases hmem : migration.version ∈ schema.schemaMigrations
  · simp [migrateOnce, isRecorded, hmem]
  · rw [if_neg hmem]
    cases hrun : migration.run schema.name schema.tables with
    | error cause =>
      simp [migrateOnce, isRecorded, runMigration, hmem, hrun]
      rfl
    | ok tables => simp [migrateOnce, isRecorded, runMigration, record, TenantSchema.migrated, hmem,
        hrun]

/-! ## One schema -/

/-- The migrations one after the other. -/
def replay (name : String) (migrations : List (TenantMigration T)) (tables : T) : Except String T :=
  migrations.foldlM (fun tables migration => migration.run name tables) tables

theorem replay_concat {migrations : List (TenantMigration T)} {migration : TenantMigration T}
    {tables tables' : T} (h : replay name migrations tables = .ok tables') :
    replay name (migrations ++ [migration]) tables = migration.run name tables' := by
  unfold replay at h ⊢
  rw [List.foldlM_append, h]
  simp [bind, Except.bind]
  cases migration.run name tables' <;> rfl

namespace Database

variable [Inhabited T] (db : Database T)

@[simp] theorem name_schema : (db.schema name).name = name := by
  unfold schema
  cases h : db.schemas.get? name with
  | none => rfl
  | some x => exact KeyedMap.key_of_get? h

theorem recorded_eq : db.recorded name = (db.schema name).schemaMigrations := by
  unfold recorded schema
  cases db.schemas.get? name <;> rfl

theorem ran_eq : db.ran name = (db.schema name).ran := by
  unfold ran schema
  cases db.schemas.get? name <;> rfl

theorem tables_eq : db.tables name = (db.schema name).tables := by
  unfold tables schema
  cases db.schemas.get? name <;> rfl

theorem schema_set (x : TenantSchema T) :
    schema { db with schemas := db.schemas.set x } name =
      if x.name = name then x else db.schema name := by
  unfold schema
  rw [KeyedMap.get?_set]
  split_ifs <;> rfl

end Database

section Invariant

variable [Inhabited T] (full : String → List (TenantMigration T)) (start : String → T)

/-- The schema has run and recorded exactly these migrations, the first ones of its list. -/
structure Migrated (schema : TenantSchema T) (ran : List (TenantMigration T)) : Prop where
  first : ran <+: full schema.name
  recorded : schema.schemaMigrations = ran.map TenantMigration.version
  completed : schema.ran = ran.map TenantMigration.version
  tables : replay schema.name ran (start schema.name) = .ok schema.tables

def Database.Sound (db : Database T) : Prop :=
  ∀ name, ∃ ran, Migrated full start (db.schema name) ran

/-- What is recorded stays so. -/
def Database.Grows (db db' : Database T) : Prop :=
  ∀ name, db.recorded name <+: db'.recorded name

variable {full start} {db : Database T}

omit [Inhabited T] in
theorem Database.grows_refl : db.Grows db := fun _ => List.prefix_refl _

theorem Database.Sound.set {x : TenantSchema T} {ran : List (TenantMigration T)}
    (h : db.Sound full start) (hx : Migrated full start x ran) :
    Database.Sound full start { db with schemas := db.schemas.set x } := by
  intro name
  rw [Database.schema_set]
  split_ifs
  · exact ⟨ran, hx⟩
  · exact h name

theorem Database.grows_set {x : TenantSchema T} (h : db.recorded x.name <+: x.schemaMigrations) :
    db.Grows { db with schemas := db.schemas.set x } := by
  intro name
  rw [Database.recorded_eq { db with schemas := db.schemas.set x }, Database.schema_set]
  split_ifs with hname
  · exact hname ▸ h
  · simp only [Database.recorded_eq, List.prefix_refl]

omit [Inhabited T] in
/-- A schema that has recorded the migrations before this one and not this one has recorded no
other. -/
theorem Migrated.eq_of_notMem {schema : TenantSchema T} {ran before : List (TenantMigration T)}
    {migration : TenantMigration T} (h : Migrated full start schema ran)
    (hfull : before ++ [migration] <+: full schema.name)
    (hbefore : before.map TenantMigration.version <+: schema.schemaMigrations)
    (hmem : migration.version ∉ schema.schemaMigrations) : ran = before := by
  rw [h.recorded] at hbefore hmem
  have hnot : ¬ before ++ [migration] <+: ran := fun hle =>
    hmem (List.mem_map_of_mem (hle.subset (by simp)))
  rcases List.prefix_or_prefix_of_prefix h.first hfull with hle | hle
  · rcases List.prefix_concat_iff.1 hle with rfl | hle
    · exact absurd (List.prefix_refl _) hnot
    · refine hle.eq_of_length_le ?_
      simpa using hbefore.length_le
  · exact absurd hle hnot

omit [Inhabited T] in
/-- A schema that has recorded this migration has recorded the ones before it. -/
theorem Migrated.prefix_of_mem {schema : TenantSchema T} {ran before : List (TenantMigration T)}
    {migration : TenantMigration T} (h : Migrated full start schema ran)
    (hnodup : ((full schema.name).map TenantMigration.version).Nodup)
    (hfull : before ++ [migration] <+: full schema.name)
    (hmem : migration.version ∈ schema.schemaMigrations) :
    (before ++ [migration]).map TenantMigration.version <+: schema.schemaMigrations := by
  rw [h.recorded] at hmem ⊢
  rcases List.prefix_or_prefix_of_prefix h.first hfull with hle | hle
  · rcases List.prefix_concat_iff.1 hle with rfl | hle
    · exact List.prefix_refl _
    · have hlt := (hfull.map TenantMigration.version).sublist.nodup hnodup
      rw [List.map_append, List.map_singleton, List.nodup_append] at hlt
      exact absurd rfl (hlt.2.2 _ ((hle.map _).subset hmem) _ (List.mem_singleton_self _))
  · exact hle.map _

omit [Inhabited T] in
theorem Migrated.migrated {schema : TenantSchema T} {ran : List (TenantMigration T)}
    {migration : TenantMigration T} {tables : T} (h : Migrated full start schema ran)
    (hfull : ran ++ [migration] <+: full schema.name)
    (hrun : migration.run schema.name schema.tables = .ok tables) :
    Migrated full start (schema.migrated migration.version tables) (ran ++ [migration]) where
  first := hfull
  recorded := by simp [TenantSchema.migrated, h.recorded]
  completed := by simp [TenantSchema.migrated, h.completed]
  tables := by
    rw [TenantSchema.migrated, replay_concat h.tables]
    exact hrun

/-- The transaction of a migration when the ones before it are recorded. -/
theorem transaction_sound {before : List (TenantMigration T)} {migration : TenantMigration T}
    (hnodup : ((full name).map TenantMigration.version).Nodup)
    (hfull : before ++ [migration] <+: full name) (h : db.Sound full start)
    (hbefore : before.map TenantMigration.version <+: db.recorded name)
    {db' : Database T} {answer : Except MigrationError Bool}
    (hmem : (db', answer) ∈ db.outcomes (.transaction name migration)) :
    db'.Sound full start ∧ db.Grows db' ∧
      ∀ b, answer = .ok b → (before ++ [migration]).map TenantMigration.version <+:
        db'.recorded name := by
  obtain ⟨ran, hran⟩ := h name
  rw [Database.recorded_eq] at hbefore
  have hunchanged : ∀ e, db.Sound full start ∧ db.Grows db ∧
      ∀ b, (.error e : Except MigrationError Bool) = .ok b →
      (before ++ [migration]).map TenantMigration.version <+: db.recorded name :=
    fun e => ⟨h, Database.grows_refl, fun b hb => by cases hb⟩
  simp only [Database.outcomes, run_migrateOnce] at hmem
  by_cases hrecorded : migration.version ∈ (db.schema name).schemaMigrations
  · rw [if_pos hrecorded] at hmem
    have hset : Database.Sound full start { db with schemas := db.schemas.set (db.schema name) } :=
        h.set hran
    have hgrows : db.Grows { db with schemas := db.schemas.set (db.schema name) } :=
      Database.grows_set
        (by simp only [Database.name_schema, Database.recorded_eq, List.prefix_refl])
    have hreached := hran.prefix_of_mem (by rwa [Database.name_schema])
        (by rwa [Database.name_schema]) hrecorded
    simp only [List.mem_cons, Prod.mk.injEq, List.not_mem_nil, or_false] at hmem
    rcases hmem with ⟨rfl, rfl⟩ | ⟨rfl, rfl⟩ | ⟨rfl, rfl⟩
    · refine ⟨hset, hgrows, fun _ _ => ?_⟩
      rw [Database.recorded_eq, Database.schema_set, if_pos (Database.name_schema db)]
      exact hreached
    · exact ⟨hset, hgrows, fun b hb => by cases hb⟩
    · exact hunchanged _
  · rw [if_neg hrecorded] at hmem
    have hran_eq : ran = before :=
        hran.eq_of_notMem (by rwa [Database.name_schema]) hbefore hrecorded
    subst hran_eq
    cases hrun : migration.run (db.schema name).name (db.schema name).tables with
    | error cause =>
      rw [hrun] at hmem
      simp only [List.mem_cons, Prod.mk.injEq, List.not_mem_nil, or_false] at hmem
      rcases hmem with ⟨rfl, rfl⟩ | ⟨rfl, rfl⟩
      · exact hunchanged _
      · exact hunchanged _
    | ok tables =>
      rw [hrun] at hmem
      have hnext := hran.migrated (by rwa [Database.name_schema]) hrun
      have hgrows : db.Grows
          { db with
            schemas := db.schemas.set ((db.schema name).migrated migration.version tables) } := by
        refine Database.grows_set ?_
        show db.recorded (db.schema name).name <+: (db.schema name).schemaMigrations ++
          [migration.version]
        rw [Database.name_schema, Database.recorded_eq]
        exact List.prefix_append _ _
      simp only [List.mem_cons, Prod.mk.injEq, List.not_mem_nil, or_false] at hmem
      rcases hmem with ⟨rfl, rfl⟩ | ⟨rfl, rfl⟩ | ⟨rfl, rfl⟩
      · refine ⟨h.set hnext, hgrows, fun _ _ => ?_⟩
        have hname : ((db.schema name).migrated migration.version tables).name = name :=
            Database.name_schema db
        simp only [Database.recorded_eq, Database.schema_set, if_pos hname, hnext.recorded,
          List.prefix_refl]
      · exact ⟨h.set hnext, hgrows, fun b hb => by cases hb⟩
      · exact hunchanged _

/-! ## Runners -/

variable (full start) in
/-- What becomes of a computation among runners. -/
abbrev Withstands {α : Type} (x : Task T α) (Q : Database T → Except MigrationError α → Prop)
    (db : Database T) : Prop :=
  x.withstands (fun db op => db.outcomes op) (fun _ _ => True)
    (Database.Sound full start) Database.Grows Q db

/-- The versions of the migrations are the first ones that are recorded. -/
def Database.Reached (db : Database T) (name : String) (migrations : List (TenantMigration T)) :
    Prop :=
  migrations.map TenantMigration.version <+: db.recorded name

omit [Inhabited T] in
theorem Database.Reached.grows {migrations : List (TenantMigration T)} {db' : Database T}
    (h : db.Reached name migrations) (hgrows : db.Grows db') : db'.Reached name migrations :=
  h.trans (hgrows name)

/-- The rest of `migrateTenantSchema`. -/
theorem withstands_rest (hnodup : ((full name).map TenantMigration.version).Nodup)
    {before rest : List (TenantMigration T)} (hfull : before ++ rest <+: full name)
    {applied : List String} (hdb : db.Reached name before) :
    Withstands full start (rest.foldlM (applyMigration name) applied)
      (fun db r => ∀ versions, r = .ok versions → db.Reached name (before ++ rest)) db := by
  induction rest generalizing before applied db with
  | nil =>
    rw [List.append_nil]
    exact fun _ _ => hdb
  | cons migration rest ih =>
    have hrest : before ++ migration :: rest = before ++ [migration] ++ rest := by simp
    rw [hrest] at hfull ⊢
    rw [List.foldlM_cons]
    refine Async.withstands_bind.2
      (Async.withstands_bind.2 fun db₁ db₂ answer hsound hgrows hmem _ => ?_)
    obtain ⟨hsound₂, hgrows₂, hreached⟩ :=
      transaction_sound hnodup ((List.prefix_append _ _).trans hfull) hsound (hdb.grows hgrows) hmem
    refine ⟨hsound₂, hgrows₂, ?_⟩
    cases answer with
    | error e => exact fun _ hversions => by cases hversions
    | ok done =>
      cases done with
      | true => exact ih hfull (hreached _ rfl)
      | false => exact ih hfull (hreached _ rfl)

theorem withstands_migrateTenantSchema (hnodup : ((full name).map TenantMigration.version).Nodup)
    {migrations : List (TenantMigration T)} (hfull : migrations <+: full name) :
    Withstands full start (migrateTenantSchema name migrations)
      (fun db r => ∀ versions, r = .ok versions → db.Reached name migrations) db := by
  unfold migrateTenantSchema
  split_ifs
  · have hnone : db.Reached name ([] : List (TenantMigration T)) := List.nil_prefix
    have hrest : [] ++ migrations <+: full name := hfull
    exact withstands_rest hnodup hrest hnone
  · exact fun _ hversions => by cases hversions

/-- The rest of `migrateAllTenants`. -/
theorem withstands_tenants {migrations : List (TenantMigration T)}
    (hnodup : ∀ name, ((full name).map TenantMigration.version).Nodup)
    (hfull : ∀ name, migrations <+: full name) {ids : List String}
    {result : MigrateAllTenantsResult}
    (hresult : ∀ id ∈ result.upToDate, db.Reached (schemaName id) migrations) :
    Withstands full start (ids.foldlM (migrateTenant migrations) result)
      (fun db r => ∀ result, r = .ok result →
      ∀ id ∈ result.upToDate, db.Reached (schemaName id) migrations) db := by
  induction ids generalizing result db with
  | nil =>
    rintro _ ⟨⟩
    exact hresult
  | cons id ids ih =>
    rw [List.foldlM_cons]
    refine Async.withstands_bind.2 (Async.withstands_tryCatch.2 (Async.withstands_bind.2 ?_))
    have htenant : Withstands full start (migrateTenantSchema (schemaName id) migrations) _ db :=
      withstands_migrateTenantSchema (hnodup (schemaName id)) (hfull (schemaName id))
    have hframe := htenant.frame
        (fun db => ∀ id ∈ result.upToDate, db.Reached (schemaName id) migrations) hresult
      fun db db' h hgrows id hid => (h id hid).grows hgrows
    refine Async.withstands_mono hframe ?_
    rintro db₁ (e | versions) ⟨hreached, hkept⟩
    · exact ih hkept
    · refine ih fun id' hid' => ?_
      rcases List.mem_append.1 hid' with hid' | hid'
      · exact hkept id' hid'
      · rw [List.mem_singleton.1 hid']
        exact hreached versions rfl

/-! ## Runs -/

/-- The runner has brought the schema up to date with this list. -/
inductive Updates : Runner T × Except MigrationError Reply → String → List (TenantMigration T) →
    Prop
  | tenant {name : String} {migrations : List (TenantMigration T)} {versions : List String} :
      Updates (.tenant name migrations, .ok (.applied versions)) name migrations
  | all {migrations : List (TenantMigration T)} {health : TenantSchemaHealth}
      {result : MigrateAllTenantsResult} {id : String} (h : id ∈ result.upToDate) :
      Updates (.all migrations health, .ok (.all result)) (schemaName id) migrations

/-- The runner's list is a first part of the full list of each schema that it runs on. -/
def Runner.Within (full : String → List (TenantMigration T)) : Runner T → Prop
  | tenant name migrations => migrations <+: full name
  | all migrations _ => ∀ name, migrations <+: full name

theorem withstands_task (hnodup : ∀ name, ((full name).map TenantMigration.version).Nodup)
    {runner : Runner T} (hfull : runner.Within full) : Withstands full start runner.task
      (fun db r => ∀ name migrations, Updates (runner, r) name migrations →
      db.Reached name migrations) db := by
  cases runner with
  | tenant name migrations =>
    have htenant : Withstands full start (migrateTenantSchema name migrations) _ db :=
      withstands_migrateTenantSchema (hnodup name) hfull
    refine Async.withstands_map.2 (Async.withstands_mono htenant ?_)
    rintro db₁ (e | versions) h name' migrations' hupdates
    · cases hupdates
    · cases hupdates
      exact h versions rfl
  | all migrations health =>
    refine Async.withstands_map.2 (Async.withstands_bind.2 fun db₁ db₂ answer hsound _ hmem _ => ?_)
    have hdb : db₂ = db₁ := by
      simp only [Database.outcomes, List.mem_cons, Prod.mk.injEq, List.not_mem_nil,
        or_false] at hmem
      rcases hmem with ⟨h, -⟩ | ⟨h, -⟩
      · exact h
      · exact h
    subst hdb
    refine ⟨hsound, Database.grows_refl, ?_⟩
    cases answer with
    | error e =>
      intro name' migrations' hupdates
      cases hupdates
    | ok ids =>
      change Withstands full start (ids.foldlM (migrateTenant migrations) { health }) _ db₂
      refine Async.withstands_mono
        (withstands_tenants hnodup hfull (fun id hid => absurd hid List.not_mem_nil)) ?_
      rintro db₃ (e | result) h name' migrations' hupdates
      · cases hupdates
      · cases hupdates with
        | all hid => exact h result rfl _ hid

end Invariant

/-! ## Runs -/

section Runs

variable [Inhabited T]

/-- Any run in which the lists of the runners are first parts of these. -/
abbrev Fleet.Leads (full : String → List (TenantMigration T)) : Fleet T → Fleet T → Prop :=
  World.Leads (fun db op => db.outcomes op)
    (fun runner : { runner : Runner T // runner.Within full } =>
    runner.1.program) TenantsChange.apply fun _ _ => True

/-- No schema has recorded a migration. -/
def Database.Fresh (db : Database T) : Prop :=
  ∀ name, db.recorded name = [] ∧ db.ran name = []

/-- Each schema has run to completion and recorded the first ones of its migrations, each once and
in order, and has become what they make of it. -/
structure Converging (full : String → List (TenantMigration T)) (db db' : Database T) : Prop where
  first : ∀ name, db'.recorded name <+: (full name).map TenantMigration.version
  once : ∀ name, db'.ran name = db'.recorded name ∧ (db'.ran name).Nodup
  tables : ∀ name, replay name ((full name).take (db'.ran name).length) (db.tables name) =
    .ok (db'.tables name)

/-- A run that has ended has brought the schema up to date with this list. -/
def Fleet.UpToDate (w : Fleet T) (name : String) (migrations : List (TenantMigration T)) : Prop :=
  ∃ e, Process.done e ∈ w.processes ∧ Updates e name migrations

def Runner.Concerns (name : String) : Runner T → Prop
  | tenant name' _ => name' = name
  | all _ _ => True

/-- All runs have ended, and the last one on the schema has brought it up to date with this list. -/
def Fleet.LastUpToDate (w : Fleet T) (name : String) (migrations : List (TenantMigration T)) :
    Prop :=
  (∀ p ∈ w.processes, ∃ e, p = Process.done e) ∧
    ∃ (i : Nat) (e : Runner T × Except MigrationError Reply), w.processes[i]? = some (.done e) ∧
      Updates e name migrations ∧
      ∀ j > i, ∀ e' : Runner T × Except MigrationError Reply, w.processes[j]? = some (.done e') →
        ¬ e'.1.Concerns name

theorem Database.Sound.converging {full : String → List (TenantMigration T)} {db db' : Database T}
    (hnodup : ∀ name, ((full name).map TenantMigration.version).Nodup)
    (h : db'.Sound full db.tables) : Converging full db db' := by
  refine ⟨fun name => ?_, fun name => ?_, fun name => ?_⟩
  · obtain ⟨ran, hran⟩ := h name
    have hfirst := hran.first
    rw [Database.name_schema] at hfirst
    rw [Database.recorded_eq, hran.recorded]
    exact hfirst.map _
  · obtain ⟨ran, hran⟩ := h name
    have hfirst := hran.first
    rw [Database.name_schema] at hfirst
    rw [Database.recorded_eq, Database.ran_eq, hran.recorded, hran.completed]
    exact ⟨rfl, (hfirst.map TenantMigration.version).sublist.nodup (hnodup name)⟩
  · obtain ⟨ran, hran⟩ := h name
    have hfirst := hran.first
    have htables := hran.tables
    rw [Database.name_schema] at hfirst htables
    rw [Database.ran_eq, hran.completed, List.length_map, ← List.prefix_iff_eq_take.1 hfirst,
      Database.tables_eq db']
    exact htables

theorem Database.Fresh.sound {full : String → List (TenantMigration T)} {db : Database T}
    (h : db.Fresh) : db.Sound full db.tables := by
  intro name
  obtain ⟨hrecorded, hran⟩ := h name
  refine ⟨[], List.nil_prefix, ?_, ?_, ?_⟩
  · rw [← Database.recorded_eq, hrecorded]
    rfl
  · rw [← Database.ran_eq, hran]
    rfl
  · rw [Database.name_schema, Database.tables_eq]
    rfl

theorem withstands_program {full : String → List (TenantMigration T)} {start : String → T}
    {db : Database T} (hnodup : ∀ name, ((full name).map TenantMigration.version).Nodup)
    {runner : Runner T} (hfull : runner.Within full) :
    runner.program.withstands (fun db op => db.outcomes op) (fun _ _ => True)
      (Database.Sound full start)
      Database.Grows (fun db e => e.1.Within full ∧
        ∀ name migrations, Updates e name migrations → db.Reached name migrations) db := by
  unfold Runner.program
  rw [map_eq_pure_bind, Process.withstands_bind]
  exact Process.withstands_mono (withstands_task hnodup hfull) fun _ _ h => ⟨hfull, h⟩

/-- The state after a run, and the runners that have ended. -/
theorem Fleet.Leads.sound {full : String → List (TenantMigration T)} {db : Database T} {w : Fleet T}
    (hnodup : ∀ name, ((full name).map TenantMigration.version).Nodup) (hdb : db.Fresh)
    (hw : Fleet.Leads full ⟨db, []⟩ w) :
    w.state.Sound full db.tables ∧ ∀ e, Process.done e ∈ w.processes →
      e.1.Within full ∧ ∀ name migrations, Updates e name migrations →
        w.state.Reached name migrations := by
  obtain ⟨hsound, -, hprocesses⟩ := World.Leads.withstand hw (fun _ => Database.grows_refl)
    (fun _ _ _ h h' name => (h name).trans (h' name))
    (fun _ _ _ h hgrows => ⟨h.1, fun name migrations hupdates =>
      (h.2 name migrations hupdates).grows hgrows⟩)
    (fun runner _ _ => withstands_program hnodup runner.2)
    (fun _ _ hsound => ⟨hsound, Database.grows_refl⟩) hdb.sound
      (fun p hp => absurd hp List.not_mem_nil)
  exact ⟨hsound, fun e he => hprocesses _ he⟩

/-- Whatever runners there are and however they end, each schema has run the first ones of its
migrations.  Once a runner has brought it up to date with a list, that list is among them; if no
runner has had a longer one, that list is what it has run, and two such schemas have run the
same. -/
theorem migrations_converge {full : String → List (TenantMigration T)} {db : Database T}
    {w : Fleet T} (hnodup : ∀ name, ((full name).map TenantMigration.version).Nodup)
    (hdb : db.Fresh) (hw : Fleet.Leads full ⟨db, []⟩ w) : Converging full db w.state ∧
      (∀ name migrations, w.UpToDate name migrations →
        migrations.map TenantMigration.version <+: w.state.ran name) ∧
      ∀ a b migrations, w.UpToDate a migrations → w.UpToDate b migrations →
        full a = migrations → full b = migrations → w.state.ran a = w.state.ran b := by
  obtain ⟨hsound, hended⟩ := hw.sound hnodup hdb
  have hconverging : Converging full db w.state := hsound.converging hnodup
  have hran : ∀ name migrations, w.UpToDate name migrations →
      migrations.map TenantMigration.version <+: w.state.ran name := by
    rintro name migrations ⟨e, he, hupdates⟩
    rw [(hconverging.once name).1]
    exact (hended e he).2 name migrations hupdates
  have hlongest : ∀ name migrations, w.UpToDate name migrations → full name = migrations →
      w.state.ran name = migrations.map TenantMigration.version := by
    intro name migrations hup hfull
    have hfirst := hconverging.first name
    rw [← (hconverging.once name).1, hfull] at hfirst
    exact hfirst.eq_of_length_le (hran name migrations hup).length_le
  refine ⟨hconverging, hran, fun a b migrations ha hb hfulla hfullb => ?_⟩
  rw [hlongest a migrations ha hfulla, hlongest b migrations hb hfullb]

end Runs

/-! ## An old and a new version of the source at once -/

theorem nodup_tenantMigrations : (tenantMigrations.map TenantMigration.version).Nodup := by decide

/-- Which list an ended run on a single schema has brought it up to date with. -/
def updated : Process (MigrationOp T) MigrationOp.Answer MigrationError
    (Runner T × Except MigrationError Reply) →
    Option (String × List String)
  | .done (.tenant name migrations, .ok (.applied _)) =>
    some (name, migrations.map TenantMigration.version)
  | _ => none

theorem eq_of_updated {p : Process (MigrationOp T) MigrationOp.Answer MigrationError
      (Runner T × Except MigrationError Reply)} {versions : List String}
      (h : updated p = some (name, versions)) :
    ∃ migrations applied, p = .done (.tenant name migrations, .ok (.applied applied)) ∧
      migrations.map TenantMigration.version = versions := by
  unfold updated at h
  split at h
  · cases h
    exact ⟨_, _, rfl, rfl⟩
  · cases h

/-- Runners on these schemas with these parts of the list. -/
def oneOf (name : String) (k : Nat) :
    { runner : Runner Tenancy.Schema // runner.Within fun _ => tenantMigrations } :=
  ⟨.tenant name (tenantMigrations.take k), List.take_prefix k _⟩

/-- While a new runner is in the middle of the list, an old one finds its own part of it done. -/
theorem migrations_converge_together : ∃ w : Fleet Tenancy.Schema,
    w.state.ran "tenant_acme" = tenantMigrations.map TenantMigration.version ∧
      Converging (fun _ => tenantMigrations) {} w.state := by
  have hrun : ((⟨{}, []⟩ : Fleet Tenancy.Schema).plays (fun db op => db.outcomes op)
      (fun runner : { runner : Runner Tenancy.Schema // runner.Within fun _ => tenantMigrations } =>
        runner.1.program) TenantsChange.apply (fun _ _ => True)
      [.start (oneOf "tenant_acme" 2), .start (oneOf "tenant_acme" 1), .call 0 0, .call 1 0,
        .call 0 0]).any
        (fun w => w.state.ran "tenant_acme" = tenantMigrations.map TenantMigration.version) =
          true := by
    decide +kernel
  obtain ⟨w, hplay, hran⟩ := (Option.any_eq_true ..).1 hrun
  exact ⟨w, of_decide_eq_true hran, (migrations_converge (fun _ => nodup_tenantMigrations)
    (fun _ => ⟨rfl, rfl⟩) (.of_plays hplay)).1⟩

/-- An old runner comes last to one tenant, after a new one, and first to another one. -/
theorem not_migrations_converge :
    ¬ ∀ (full : String → List (TenantMigration Tenancy.Schema)) (db : Database Tenancy.Schema)
        (w : Fleet Tenancy.Schema), (∀ name, ((full name).map TenantMigration.version).Nodup) →
        db.Fresh →
      Fleet.Leads full ⟨db, []⟩ w →
      Converging full db w.state ∧ ∀ a b migrations, w.LastUpToDate a migrations →
        w.LastUpToDate b migrations →
        w.state.ran a = w.state.ran b := by
  intro h
  have hnodup : ∀ _ : String, (tenantMigrations.map TenantMigration.version).Nodup :=
      fun _ => nodup_tenantMigrations
  have hrun : ((⟨{}, []⟩ : Fleet Tenancy.Schema).plays (fun db op => db.outcomes op)
      (fun runner : { runner : Runner Tenancy.Schema // runner.Within fun _ => tenantMigrations } =>
        runner.1.program) TenantsChange.apply (fun _ _ => True)
      [.start (oneOf "tenant_acme" 2), .call 0 0, .call 0 0, .start (oneOf "tenant_acme" 1),
        .call 1 0,
        .start (oneOf "tenant_bolt" 1), .call 2 0]).any
        (fun w => w.processes.map updated =
          [some ("tenant_acme", ["001_baseline", "002_instance_version"]),
            some ("tenant_acme", ["001_baseline"]), some ("tenant_bolt", ["001_baseline"])] ∧
          w.state.ran "tenant_acme" ≠ w.state.ran "tenant_bolt") = true := by
    decide +kernel
  obtain ⟨w, hplay, hend⟩ := (Option.any_eq_true ..).1 hrun
  obtain ⟨hupdated, hran⟩ := of_decide_eq_true hend
  have hw : Fleet.Leads (fun _ => tenantMigrations) ⟨{}, []⟩ w := .of_plays hplay
  have hwithin := fun e he => ((hw.sound hnodup fun _ => ⟨rfl, rfl⟩).2 e he).1
  simp only [List.map_eq_cons_iff, List.map_eq_nil_iff] at hupdated
  obtain ⟨p₀, _, hprocesses, h₀, p₁, _, rfl, h₁, p₂, _, rfl, h₂, rfl⟩ := hupdated
  obtain ⟨new, applied₀, rfl, -⟩ := eq_of_updated h₀
  obtain ⟨old, applied₁, rfl, hold⟩ := eq_of_updated h₁
  obtain ⟨old', applied₂, rfl, hold'⟩ := eq_of_updated h₂
  rw [hprocesses] at hwithin
  have holds : old' = old := by
    have hfirst : old <+: tenantMigrations :=
        hwithin _ (List.mem_cons_of_mem _ (List.mem_cons_self ..))
    have hfirst' : old' <+: tenantMigrations :=
      hwithin _ (List.mem_cons_of_mem _ (List.mem_cons_of_mem _ (List.mem_cons_self ..)))
    have hlength : old.length =
        1 := by rw [← List.length_map (f := TenantMigration.version), hold]; rfl
    have hlength' : old'.length =
        1 := by rw [← List.length_map (f := TenantMigration.version), hold']; rfl
    rw [List.prefix_iff_eq_take.1 hfirst, List.prefix_iff_eq_take.1 hfirst', hlength, hlength']
  subst holds
  have hall : ∀ p ∈ w.processes, ∃ e, p = Process.done e := by
    rw [hprocesses]
    simp
  refine hran ((h _ _ w hnodup (fun _ => ⟨rfl, rfl⟩) hw).2 "tenant_acme" "tenant_bolt" old' ?_ ?_)
  · refine ⟨hall, 1, _, by rw [hprocesses]; rfl, .tenant, fun j hj e he => ?_⟩
    rw [hprocesses] at he
    match j, hj with
    | 2, _ =>
      cases he
      show ¬ "tenant_bolt" = "tenant_acme"
      decide
    | j + 3, _ => cases he
  · refine ⟨hall, 2, _, by rw [hprocesses]; rfl, .tenant, fun j hj e he => ?_⟩
    rw [hprocesses] at he
    match j, hj with
    | j + 3, _ => cases he

end NexusWorkflow.Migrations
