import NexusWorkflow.Run.Diagram
import NexusWorkflow.Run.Filing
import NexusWorkflow.Store.RoundTrip

/-!
# Commands with the store in between

A state that was saved and loaded is the state of the engine, but for the loop states of its tokens
and for what JSON cannot say of its variables.  As long as neither matters, a run through the store
goes like one in memory.
-/

namespace NexusWorkflow

open ExecutionContext

variable {d : ProcessDefinition}

/-- The engine has come to the state, and every state on the way was saved. -/
inductive Saved (d : ProcessDefinition) : Store → EngineState → Nat → Nat → Prop
  | start {store store' : Store} {fuel : Nat} {vars : Option Variables}
      {correlationKey businessKey : Option String} {options : ExecuteOptions}
      {result : EngineResult} (h : execute d fuel
      (.startProcess vars correlationKey businessKey) none options = .ok result)
      (hstore : store.Lacks result.newState.inst.id)
      (hsave : store.executeTransaction (computeStoreOps true none none result.newState) =
        .ok store') : Saved d store' result.newState 1 result.nextId
  | next {store store' : Store} {state : EngineState} {version nextId : Nat}
      (saved : Saved d store state version nextId) {fuel : Nat} {command : EngineCommand}
      (hgoes : command.goesOn = true) {options : ExecuteOptions} (hid : nextId ≤ options.firstId)
      {result : EngineResult} (h : execute d fuel command (some state) options = .ok result)
      (hsave : store.executeTransaction
        (computeStoreOps false (some state) (some version) result.newState) = .ok store') :
      Saved d store' result.newState (version + 1) result.nextId

variable {store : Store} {state : EngineState} {version nextId : Nat}

theorem Saved.run (h : Saved d store state version nextId) : ∃ steps, Run d steps state nextId := by
  induction h with
  | start h _ _ => exact ⟨_, .start h⟩
  | next _ _ hid h _ ih =>
    obtain ⟨steps, hrun⟩ := ih
    exact ⟨_, hrun.next hid h⟩

theorem Run.records_nodup {steps : List Step} (h : Run d steps state nextId) :
    (state.compensationRecords.map (·.tokenId)).Nodup := by
  obtain ⟨ctx, inst, htrace, -, -, rfl, -⟩ := h.trace
  exact htrace.filed.once

/-- What holds of the store and the state then. -/
theorem Saved.invariant (h : Saved d store state version nextId) :
    store.Holds state version ∧ state.Tidy ∧ ∀ t ∈ state.tokens, t.id < nextId := by
  induction h with
  | start h hstore hsave =>
    obtain ⟨htidy, hids, -, -⟩ := execute_start_tidy h
    exact ⟨hstore.saved htidy (Run.start h).records_nodup hsave, htidy, hids⟩
  | next saved hgoes hid h hsave ih =>
    obtain ⟨hholds, htidy, hids⟩ := ih
    obtain ⟨htidy', hids', hkept⟩ := execute_tidy hgoes htidy
      (fun t ht => (hids t ht).trans_le hid) h
    obtain ⟨steps, hrun⟩ := saved.run
    obtain ⟨hnd, hfiled⟩ := (Call.next hrun _ hid).filed h
    have hcore := execute_core hgoes h
    have hinst := congrArg (fun i : ProcessInstance => i.id) hcore
    exact ⟨hholds.saved hinst htidy' hnd hfiled hkept hsave, htidy', hids'⟩

/-! ## Two ways to run -/

/-- A command with the fuel, the clock and the evaluator of its cycle, and the order in which the
database gives its rows then. -/
structure Request where
  command : EngineCommand
  goesOn : command.goesOn
  fuel : Nat
  now : Nat → Time
  evaluate : String → Variables → Except EngineError Value
  order : RowOrder

def Request.execute (d : ProcessDefinition) (c : Request) (state : EngineState) (nextId : Nat) :
    Except EngineError EngineResult :=
  NexusWorkflow.execute d c.fuel c.command (some state)
    { firstId := nextId, now := c.now, evaluate := c.evaluate }

/-- The status and the events after a command, or its error. -/
abbrev Outcome := Except EngineError (InstanceStatus × List ExecutionEvent)

/-- The outcomes of commands, each on the state that the one before has left. -/
def runInMemory (d : ProcessDefinition) : EngineState → Nat → List Request → List Outcome
  | _, _, [] => []
  | state, nextId, c :: cs =>
      match c.execute d state nextId with
      | .error e => .error e :: runInMemory d state nextId cs
      | .ok result =>
          .ok (result.newState.inst.status, result.events) ::
            runInMemory d result.newState result.nextId cs

/-- The outcomes of commands, each on the state as it is loaded, and saved again after it. -/
def runOnStore (d : ProcessDefinition) (instanceId : Nat) :
    Store → Nat → List Request → List Outcome
  | _, _, [] => []
  | store, nextId, c :: cs =>
      match (loadEngineState c.order instanceId).alone store with
      | none => []
      | some (state, version) =>
          match c.execute d state nextId with
          | .error e => .error e :: runOnStore d instanceId store nextId cs
          | .ok result =>
              match store.executeTransaction
                  (computeStoreOps false (some state) (some version) result.newState) with
              | .error _ => []
              | .ok store' =>
                  .ok (result.newState.inst.status, result.events) ::
                    runOnStore d instanceId store' result.nextId cs

/-- Every state that a command finds survives the store, and is read in the engine's order. -/
def Survives (d : ProcessDefinition) : EngineState → Nat → List Request → Prop
  | _, _, [] => True
  | state, nextId, c :: cs =>
      state.Storable ∧ c.order.Follows state ∧
        match c.execute d state nextId with
        | .error _ => Survives d state nextId cs
        | .ok result => Survives d result.newState result.nextId cs

theorem Saved.runOnStore (h : Saved d store state version nextId) {requests : List Request}
    (hsurvives : Survives d state nextId requests) :
    NexusWorkflow.runOnStore d state.inst.id store nextId requests =
      runInMemory d state nextId requests := by
  induction requests generalizing store state version nextId with
  | nil => rfl
  | cons c cs ih =>
    obtain ⟨hstorable, hfollows, hrest⟩ := hsurvives
    obtain ⟨hholds, htidy, -⟩ := h.invariant
    obtain ⟨steps, hrun⟩ := h.run
    have hload := hholds.load c.order
    rw [hholds.loaded_eq htidy hrun.records_nodup hstorable hfollows] at hload
    rw [NexusWorkflow.runOnStore, runInMemory]
    simp only [hload]
    cases hexec : c.execute d state nextId with
    | error e =>
      simp only [hexec] at hrest ⊢
      rw [ih h hrest]
    | ok result =>
      have hcore := execute_core c.goesOn hexec
      have hinst := congrArg (fun i : ProcessInstance => i.id) hcore
      obtain ⟨store', hsave⟩ := hholds.saves hinst
      have hnext := h.next c.goesOn (le_refl nextId) hexec hsave
      simp only [hexec, hsave] at hrest ⊢
      have hid : result.newState.inst.id = state.inst.id := hinst
      rw [← ih hnext hrest, hid]

/-- The rows that are loaded are those of the engine's state exactly if the state can be stored; and
as long as all states can, the outcomes of commands are the same with the store in between. -/
theorem Saved.roundTrip (h : Saved d store state version nextId) :
    (∀ order : RowOrder, ∃ loaded,
      (loadEngineState order state.inst.id).alone store = some (loaded, version) ∧
        (loaded.SameRows state ↔ state.Storable)) ∧
    ∀ requests, Survives d state nextId requests →
      NexusWorkflow.runOnStore d state.inst.id store nextId requests =
        runInMemory d state nextId requests := by
  obtain ⟨hholds, htidy, -⟩ := h.invariant
  obtain ⟨steps, hrun⟩ := h.run
  exact ⟨fun order => ⟨_, hholds.load order, hholds.sameRows_iff htidy hrun.records_nodup order⟩,
    fun requests hsurvives => h.runOnStore hsurvives⟩

/-! ## Small runs -/

/-- `ORDER BY id`, for instances that have neither join states nor compensation records. -/
def byId : RowOrder where
  tokens := List.insertionSort fun a b => a.id ≤ b.id
  gatewayStates rows := rows
  compensationRecords rows := rows
  perm_tokens _ := List.perm_insertionSort _ _
  perm_gatewayStates _ := .refl _
  perm_compensationRecords _ := .refl _

/-- There is little to store: tokens outside of loops, in the order of their ids. -/
def EngineState.plain (state : EngineState) : Bool :=
  (state.tokens.all fun t => t.loopState.isNone) &&
    (state.scopes.all fun s => s.vars.values.isEmpty) &&
    decide (state.tokens.Pairwise fun a b => a.id < b.id) && state.gatewayJoinStates.isEmpty &&
      state.compensationRecords.isEmpty

theorem EngineState.plain.survives (h : state.plain = true) :
    state.Storable ∧ byId.Follows state := by
  simp only [EngineState.plain, Bool.and_eq_true, List.all_eq_true, Option.isNone_iff_eq_none,
    List.isEmpty_iff, decide_eq_true_eq] at h
  obtain ⟨⟨⟨⟨hloops, hscopes⟩, hsorted⟩, hjoins⟩, hrecords⟩ := h
  refine ⟨⟨hloops, fun scope hscope => ?_⟩, fun rows hrows => ?_, fun rows hrows => ?_,
    fun rows hrows => ?_, by simp [hrecords]⟩
  · obtain ⟨id, parent, ⟨values, hnd⟩⟩ := scope
    have hvalues : values = [] := hscopes _ hscope
    subst hvalues
    rfl
  · have hperm : (byId.tokens rows).Perm state.tokens := (byId.perm_tokens rows).trans hrows
    have hle : (byId.tokens rows).Pairwise fun a b => a.id ≤ b.id :=
      List.pairwise_insertionSort _ rows
    refine hperm.eq_of_pairwise (fun a b ha hb hab hba => ?_) hle (hsorted.imp Nat.le_of_lt)
    have hnd : (state.tokens.map (·.id)).Nodup :=
      List.pairwise_map.2 (hsorted.imp Nat.ne_of_lt)
    exact List.inj_on_of_nodup_map hnd (hperm.subset ha) hb (Nat.le_antisymm hab hba)
  · rw [hjoins] at hrows ⊢
    exact hrows.eq_nil
  · rw [hrecords] at hrows ⊢
    exact hrows.eq_nil

/-- Every state that a command finds is such. -/
def plainRun (d : ProcessDefinition) : EngineState → Nat → List Request → Bool
  | _, _, [] => true
  | state, nextId, c :: cs =>
      state.plain &&
        match c.execute d state nextId with
        | .error _ => plainRun d state nextId cs
        | .ok result => plainRun d result.newState result.nextId cs

theorem survives_of_plainRun {requests : List Request} (horder : ∀ c ∈ requests, c.order = byId)
    (h : plainRun d state nextId requests = true) : Survives d state nextId requests := by
  induction requests generalizing state nextId with
  | nil => trivial
  | cons c cs ih =>
    rw [plainRun, Bool.and_eq_true] at h
    obtain ⟨hstorable, hfollows⟩ := EngineState.plain.survives h.1
    refine ⟨hstorable, (horder c List.mem_cons_self) ▸ hfollows, ?_⟩
    have hcs := fun c' hc' => horder c' (List.mem_cons_of_mem c hc')
    cases hexec : c.execute d state nextId with
    | error e =>
      simp only [hexec] at h ⊢
      exact ih hcs h.2
    | ok result =>
      simp only [hexec] at h ⊢
      exact ih hcs h.2

/-- A process is started and saved in an empty store. -/
def startSaved (d : ProcessDefinition) (evaluate : String → Variables → Except EngineError Value) :
    Option (Store × EngineResult) := do
  let result ← (execute d 10 (.startProcess none none none) none (stopped evaluate 0)).toOption
  let store ← ((∅ : Store).executeTransaction
    (computeStoreOps true none none result.newState)).toOption
  pure (store, result)

theorem lacks_empty (instanceId : Nat) : (∅ : Store).Lacks instanceId := by
  have hnone : ∀ {α : Type} (a : α) (p : Prop), a ∈ ([] : List α) ∧ p ↔ a ∈ ([] : List α) := by simp
  exact ⟨rfl, fun _ => hnone _ _, fun _ => hnone _ _, fun _ => hnone _ _⟩

theorem saved_of_startSaved {evaluate : String → Variables → Except EngineError Value}
    {result : EngineResult} (h : startSaved d evaluate = some (store, result)) :
    Saved d store result.newState 1 result.nextId := by
  unfold startSaved at h
  obtain ⟨x, hx, h⟩ := Option.bind_eq_some_iff.1 h
  obtain ⟨y, hy, h⟩ := Option.bind_eq_some_iff.1 h
  simp only [pure, Option.some.injEq, Prod.mk.injEq] at h
  obtain ⟨rfl, rfl⟩ := h
  exact .start (Except.eq_ok_of_toOption hx) (lacks_empty _) (Except.eq_ok_of_toOption hy)

/-- The request to complete the task of a token. -/
def completion (evaluate : String → Variables → Except EngineError Value) (tokenId : Nat) :
    Request where
  command := .completeUserTask tokenId "user" none
  goesOn := EngineCommand.completeUserTask_goesOn tokenId "user" none
  fuel := 10
  now _ := 0
  evaluate := evaluate
  order := byId

open Diagram

/-- An errand with the store in between. -/
theorem roundTrip_errand : ∃ store result, startSaved errand always = some (store, result) ∧
    runOnStore errand result.newState.inst.id store result.nextId
        [completion always 3, completion always 4] =
      runInMemory errand result.newState result.nextId
        [completion always 3, completion always 4] := by
  have hruns : (startSaved errand always).any (fun (_, result) =>
      plainRun errand result.newState result.nextId [completion always 3, completion always 4]) =
        true := by decide +kernel
  obtain ⟨⟨store, result⟩, hstart, hplain⟩ := (Option.any_eq_true ..).1 hruns
  refine ⟨store, result, hstart, (Saved.roundTrip (saved_of_startSaved hstart)).2 _ ?_⟩
  refine survives_of_plainRun (fun c hc => ?_) hplain
  rcases List.mem_cons.1 hc with rfl | hc
  · rfl
  · rw [List.mem_singleton.1 hc]
    rfl

/-- A user task for each of two items, one after the other. -/
def inTurn : ProcessDefinition :=
  definition [.between "in" "start" "tasks", .between "out" "tasks" "end"]
    [start [.between "in" "start" "tasks"] "start",
      userTasksInTurn [.between "out" "tasks" "end"] "tasks", finish [] "end" .none]

/-- The status that an outcome shows. -/
def Outcome.status (outcome : Outcome) : Option InstanceStatus := outcome.toOption.map (·.1)

/-- The two tasks are done.  In memory the process is at its end; with the store in between it stays
active, since the parent of the tasks has lost its loop state, and the second task never begins. -/
theorem not_roundTrip_inTurn : ∃ store result, startSaved inTurn twoItems = some (store, result) ∧
    runOnStore inTurn result.newState.inst.id store result.nextId
        [completion twoItems 5, completion twoItems 7] ≠
      runInMemory inTurn result.newState result.nextId
        [completion twoItems 5, completion twoItems 7] := by
  have hruns : (startSaved inTurn twoItems).any (fun (store, result) =>
      (runOnStore inTurn result.newState.inst.id store result.nextId
          [completion twoItems 5, completion twoItems 7]).map Outcome.status =
        [some .active, none] ∧
      (runInMemory inTurn result.newState result.nextId
          [completion twoItems 5, completion twoItems 7]).map Outcome.status =
        [some .active, some .completed]) = true := by decide +kernel
  obtain ⟨⟨store, result⟩, hstart, hstatus⟩ := (Option.any_eq_true ..).1 hruns
  simp only [decide_eq_true_eq] at hstatus
  refine ⟨store, result, hstart, fun heq => ?_⟩
  have h := hstatus.1
  rw [heq, hstatus.2] at h
  cases h

end NexusWorkflow
