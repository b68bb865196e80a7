import NexusWorkflow.Game.CommandRefinement
import NexusWorkflow.Game.Settled
import NexusWorkflow.Game.Waiting

/-!
# Runs

A `Run` is a finite sequence of commands, the first one `StartProcess` on no state, each applied by
`execute` to the state that the one before returned.  Its history lists the steps of all cycles: the
command handlers and the rounds of the run loop.  `Trace` is the same history one step at a time;
invariants are proved by induction over it.
-/

namespace NexusWorkflow

open ExecutionContext

inductive Action where
  | command (command : EngineCommand)
  | process (token : Token)

/-- One step of a cycle.  When a token is processed, `before` is the context from whose queue it was
taken. -/
structure Step where
  before : ExecutionContext
  action : Action
  after : ExecutionContext

variable (d : ProcessDefinition)

/-- The rounds of the run loop. -/
def loopSteps : Nat → ExecutionContext → List Step
  | fuel, ctx =>
      match ctx.pendingQueue with
      | [] => []
      | token :: rest =>
          match fuel with
          | 0 => []
          | fuel + 1 =>
              match processToken d { ctx with pendingQueue := rest } token with
              | .ok after =>
                  ⟨{ ctx with pendingQueue := rest }, .process token, after⟩ :: loopSteps fuel after
              | .error _ => []

/-- The steps of one call of `execute`. -/
def cycleSteps (fuel : Nat) (command : EngineCommand) (state : Option EngineState)
    (options : ExecuteOptions) : List Step :=
  match handleCommand d (ExecutionContext.create state options) command with
  | .ok after =>
      ⟨ExecutionContext.create state options, .command command, after⟩ :: loopSteps d fuel after
  | .error _ => []

/-- A run with its history, the state it leads to and the next unused id.  Each call may come with
another clock and another evaluator; `generateId` never repeats an id. -/
inductive Run : List Step → EngineState → Nat → Prop
  | start {fuel : Nat} {vars : Option Variables} {correlationKey businessKey : Option String}
      {options : ExecuteOptions} {result : EngineResult}
      (h : execute d fuel (.startProcess vars correlationKey businessKey) none options =
      .ok result) :
      Run (cycleSteps d fuel (.startProcess vars correlationKey businessKey) none options)
        result.newState result.nextId
  | next {steps : List Step} {state : EngineState} {nextId : Nat} (run : Run steps state nextId)
      {fuel : Nat} {command : EngineCommand} {options : ExecuteOptions} {result : EngineResult}
      (hid : nextId ≤ options.firstId)
      (h : execute d fuel command (some state) options = .ok result) :
      Run (steps ++ cycleSteps d fuel command (some state) options) result.newState result.nextId

/-- A state that follows another one in a run, each with the next unused id. -/
inductive Later (state : EngineState) (nextId : Nat) : EngineState → Nat → Prop
  | refl : Later state nextId state nextId
  | next {mid : EngineState} {midId : Nat} (h : Later state nextId mid midId) {fuel : Nat}
      {command : EngineCommand} {options : ExecuteOptions} {result : EngineResult}
      (hid : midId ≤ options.firstId)
      (hok : execute d fuel command (some mid) options = .ok result) :
      Later state nextId result.newState result.nextId

/-! ## Traces -/

/-- The context that a history leads to, in the middle of a cycle or at rest. -/
inductive Trace : List Step → ExecutionContext → Prop
  | create (options : ExecuteOptions) : Trace [] (ExecutionContext.create none options)
  | reload {steps : List Step} {ctx : ExecutionContext} (h : Trace steps ctx)
      (hqueue : ctx.pendingQueue = []) {inst : ProcessInstance} (hinst : ctx.inst = some inst)
      {options : ExecuteOptions} (hid : ctx.nextId ≤ options.firstId) :
      Trace steps (ExecutionContext.create (some (ctx.toState inst)) options)
  | command {steps : List Step} {before after : ExecutionContext} (h : Trace steps before)
      (hqueue : before.pendingQueue = []) {command : EngineCommand}
      (hok : handleCommand d before command = .ok after) :
      Trace (steps ++ [⟨before, .command command, after⟩]) after
  | process {steps : List Step} {ctx after : ExecutionContext} (h : Trace steps ctx) {token : Token}
      {rest : List Token} (hqueue : ctx.pendingQueue = token :: rest)
      (hok : processToken d { ctx with pendingQueue := rest } token = .ok after) :
      Trace (steps ++ [⟨{ ctx with pendingQueue := rest }, .process token, after⟩]) after

variable {d}

theorem loopSteps_nil {fuel : Nat} {ctx : ExecutionContext} (h : ctx.pendingQueue = []) :
    loopSteps d fuel ctx = [] := by
  rw [loopSteps]
  simp only [h]

theorem loopSteps_cons {fuel : Nat} {ctx after : ExecutionContext} {token : Token}
    {rest : List Token} (h : ctx.pendingQueue = token :: rest)
    (hok : processToken d { ctx with pendingQueue := rest } token = .ok after) :
    loopSteps d (fuel + 1) ctx =
      ⟨{ ctx with pendingQueue := rest }, .process token, after⟩ :: loopSteps d fuel after := by
  rw [loopSteps]
  simp only [h, hok]

theorem Trace.runLoop {steps : List Step} {fuel : Nat} {ctx ctx' : ExecutionContext}
    (h : Trace d steps ctx) (hrun : runLoop d fuel ctx = .ok ctx') :
    Trace d (steps ++ loopSteps d fuel ctx) ctx' ∧ ctx'.pendingQueue = [] := by
  cases hq : ctx.pendingQueue with
  | nil =>
    rw [runLoop_nil d hq, Except.ok.injEq] at hrun
    rw [loopSteps_nil hq, List.append_nil]
    exact ⟨hrun ▸ h, hrun ▸ hq⟩
  | cons t rest =>
    induction fuel generalizing ctx steps t rest with
    | zero => simp [runLoop_zero d hq] at hrun
    | succ fuel ih =>
      rw [runLoop_cons d hq] at hrun
      obtain ⟨mid, hmid, hrun⟩ := Except.bind_eq_ok_iff.1 hrun
      have hmidTrace := h.process hq hmid
      rw [loopSteps_cons hq hmid, List.append_cons]
      cases hq' : mid.pendingQueue with
      | nil =>
        rw [runLoop_nil d hq', Except.ok.injEq] at hrun
        rw [loopSteps_nil hq', List.append_nil]
        exact ⟨hrun ▸ hmidTrace, hrun ▸ hq'⟩
      | cons t' rest' => exact ih hmidTrace hrun t' rest' hq'

/-- A call of `execute` on a context that a trace leads to. -/
theorem Trace.execute {steps : List Step} {fuel : Nat} {command : EngineCommand}
    {state : Option EngineState} {options : ExecuteOptions} {result : EngineResult}
    (h : Trace d steps (ExecutionContext.create state options))
    (hok : execute d fuel command state options = .ok result) :
    ∃ ctx inst, Trace d (steps ++ cycleSteps d fuel command state options) ctx ∧
      ctx.pendingQueue = [] ∧ ctx.inst = some inst ∧ result.newState = ctx.toState inst ∧
      result.events = ctx.events ∧ result.nextId = ctx.nextId := by
  unfold NexusWorkflow.execute at hok
  obtain ⟨mid, hmid, hok⟩ := Except.bind_eq_ok_iff.1 hok
  obtain ⟨ctx, hctx, hok⟩ := Except.bind_eq_ok_iff.1 hok
  unfold ExecutionContext.toResult at hok
  obtain ⟨inst, hinst, hok⟩ := Except.bind_eq_ok_iff.1 hok
  have hinst' : ctx.inst = some inst := by
    unfold requireInstance at hinst
    cases hi : ctx.inst with
    | none => simp [hi] at hinst
    | some i =>
      simp only [hi, Except.ok.injEq] at hinst
      rw [hinst]
  have hqueue : (ExecutionContext.create state options).pendingQueue = [] := rfl
  obtain ⟨htrace, hempty⟩ := (h.command hqueue hmid).runLoop hctx
  rw [List.append_assoc, List.singleton_append] at htrace
  rw [← Except.ok.inj hok]
  refine ⟨ctx, inst, ?_, hempty, hinst', rfl, rfl, rfl⟩
  simpa only [cycleSteps, hmid] using htrace

/-- Every run is a trace that ends at rest, with the state that the run leads to. -/
theorem Run.trace {steps : List Step} {state : EngineState} {nextId : Nat}
    (h : Run d steps state nextId) :
    ∃ ctx inst, Trace d steps ctx ∧ ctx.pendingQueue = [] ∧ ctx.inst = some inst ∧
      state = ctx.toState inst ∧ nextId = ctx.nextId := by
  induction h with
  | @start _ _ _ _ options _ h =>
    obtain ⟨ctx, inst, htrace, hq, hi, hs, -, hn⟩ := (Trace.create (d := d) options).execute h
    exact ⟨ctx, inst, htrace, hq, hi, hs, hn⟩
  | next run hid h ih =>
    obtain ⟨ctx, inst, htrace, hq, hi, rfl, rfl⟩ := ih
    obtain ⟨ctx', inst', htrace', hq', hi', hs', -, hn'⟩ := (htrace.reload hq hi hid).execute h
    exact ⟨ctx', inst', htrace', hq', hi', hs', hn'⟩

theorem Later.run {steps : List Step} {state later : EngineState} {nextId laterId : Nat}
    (run : Run d steps state nextId) (h : Later d state nextId later laterId) :
    ∃ steps', Run d steps' later laterId := by
  induction h with
  | refl => exact ⟨steps, run⟩
  | next _ hid hok ih =>
    obtain ⟨steps', run'⟩ := ih
    exact ⟨_, run'.next hid hok⟩

/-! ## Traces on pools -/

/-- A token is put back at the head of the queue. -/
def Pool.push (P : Pool) (t : Token) : Pool := { P with pending := t :: P.pending }

/-- What is handed on to the next cycle. -/
def Pool.reload (P : Pool) (n : Nat) : Pool := { P with cancelled := [], nextId := n }

/-- The pool of a context on which nothing has happened yet. -/
def Pool.start (n : Nat) : Pool :=
  { tokens := [], pending := [], joins := ∅, records := [], cancelled := [], nextId := n,
    status := none }

theorem pool_reload {ctx : ExecutionContext} {inst : ProcessInstance} (hinst : ctx.inst = some inst)
    (hqueue : ctx.pendingQueue = []) (options : ExecuteOptions) :
    (ExecutionContext.create (some (ctx.toState inst)) options).pool =
      ctx.pool.reload options.firstId := by
  simp only [ExecutionContext.create, ExecutionContext.toState, ExecutionContext.pool, Pool.reload,
    Option.map_some, Option.getD_some, KeyedMap.ofList_values, hinst, hqueue]
  rfl

theorem pool_pop {ctx : ExecutionContext} {token : Token} {rest : List Token}
    (hqueue : ctx.pendingQueue = token :: rest) :
    ctx.pool = ({ ctx with pendingQueue := rest } : ExecutionContext).pool.push token.erase := by
  simp [ExecutionContext.pool, Pool.push, hqueue]

theorem coherent_push {P : Pool} {t : Token} : (P.push t).Coherent [] ↔ P.Coherent [t] := by
  constructor <;> intro h
  · exact ⟨h.nodup, h.numbered, h.flightNodup, h.inFlight, h.active, h.notSuspended, h.parents⟩
  · exact ⟨h.nodup, h.numbered, h.flightNodup, h.inFlight, h.active, h.notSuspended, h.parents⟩

/-- A turn, and the new tokens. -/
def Turned (d : ProcessDefinition) (P : Pool) (t : Token) (P' : Pool) : Prop :=
  ∃ Q origins, Turn d P t Q origins ∧ Spawned (Made d) origins Q P'

theorem processToken_turned {ctx ctx' : ExecutionContext} {t : Token}
    (hhand : ctx.pool.Coherent [t.erase]) (h : processToken d ctx t = .ok ctx') :
    Turned d ctx.pool t.erase ctx'.pool := by
  have hid : t.id ∈ ctx.pool.ids := (hhand.holds List.mem_cons_self).mem_ids
  exact processToken_turn hhand.numbered hid h

theorem Turned.coherent {P P' : Pool} {t : Token} (hP : P.Coherent [t]) (h : Turned d P t P') :
    P'.Coherent [] := by
  obtain ⟨Q, origins, hturn, hmade⟩ := h
  exact (hturn.ready hP).spawned hmade

theorem Turned.stays {P P' : Pool} {t x : Token} (hx : x ∈ P.tokens) (hnot : ¬ P.TouchesTurn d t x)
    (h : Turned d P t P') : x ∈ P'.tokens := by
  obtain ⟨Q, origins, hturn, hmade⟩ := h
  exact hmade.stays (hturn.stays hx hnot)

/-- What a turn leaves where it is. -/
theorem Turned.holds {P P' : Pool} {t x : Token} (hP : P.Coherent [t]) (h : Turned d P t P')
    (hx : P.Holds x) : P'.Holds x := by
  obtain ⟨Q, origins, hturn, hmade⟩ := h
  exact hmade.holds ((hturn.frame hP.nodup (hP.holds List.mem_cons_self)).holds hx)

/-- A settled token stays settled when another token is processed. -/
theorem Turned.settled {P P' : Pool} {t x : Token} (hP : P.Coherent [t]) (hk : P.Kindred d)
    (hx : (P.push t).Settled d x) (h : Turned d P t P') : P'.Kindred d ∧ P'.Settled d x := by
  obtain ⟨Q, origins, hturn, hmade⟩ := h
  have hnot : x.id ∉ (t :: P.pending).map (·.id) := hx.notPending
  rw [List.map_cons, List.mem_cons, not_or] at hnot
  have hsettled : P.Settled d x := ⟨hx.mem, hx.finished, hnot.2, hx.childless⟩
  have hn := (hturn.ready hP).coherent.numbered
  exact ⟨hturn.kindred hP hk hmade, (hsettled.turn hP hk hnot.1 hturn).spawned hn hmade⟩

theorem coherent_start (n : Nat) : (Pool.start n).Coherent [] := by
  constructor <;> simp [Pool.start, Pool.ids, Pool.flight, Pool.Numbered]

theorem coherent_reload {P : Pool} {n : Nat} (h : P.Coherent []) (hn : P.nextId ≤ n) :
    (P.reload n).Coherent [] :=
  ⟨h.nodup, fun t ht => (h.numbered t ht).trans_le hn, h.flightNodup, h.inFlight, h.active,
    h.notSuspended, h.parents⟩

/-- The rule of invariants: `I` holds at the beginning, across cycles, and is kept by every legal
step that meets the condition `C`. -/
theorem Trace.invariant {I : List Step → Pool → Prop} {C : Step → Prop}
    (hstart : ∀ n, I [] (Pool.start n))
    (hreload : ∀ steps P n, P.Coherent [] → P.pending = [] → P.nextId ≤ n → I steps P →
      I steps (P.reload n))
    (hcommand : ∀ steps before command after, C ⟨before, .command command, after⟩ →
      before.pool.Coherent [] → before.pool.pending = [] → I steps before.pool →
      Commanded d before.pool command after.pool →
      I (steps ++ [⟨before, .command command, after⟩]) after.pool)
    (hprocess : ∀ steps before t after, C ⟨before, .process t, after⟩ →
      before.pool.Coherent [t.erase] → I steps (before.pool.push t.erase) →
      Turned d before.pool t.erase after.pool →
      I (steps ++ [⟨before, .process t, after⟩]) after.pool)
    {steps : List Step} {ctx : ExecutionContext} (h : Trace d steps ctx) (hC : ∀ st ∈ steps, C st) :
    ctx.pool.Coherent [] ∧ I steps ctx.pool := by
  induction h with
  | create options => exact ⟨coherent_start _, hstart _⟩
  | @reload steps ctx _ hqueue inst hinst options hid ih =>
    obtain ⟨hcoh, hI⟩ := ih hC
    rw [pool_reload hinst hqueue]
    exact ⟨coherent_reload hcoh hid, hreload _ _ _ hcoh (by simp [pool, hqueue]) hid hI⟩
  | command _ hqueue hok ih =>
    obtain ⟨hcoh, hI⟩ := ih fun st hst => hC st (List.mem_append_left _ hst)
    have hcmd := handleCommand_commanded hcoh.numbered hok
    exact ⟨hcmd.coherent hcoh, hcommand _ _ _ _ (hC _ (List.mem_append_right _ List.mem_cons_self))
      hcoh (by simp [pool, hqueue]) hI hcmd⟩
  | @process steps ctx after _ token rest hqueue hok ih =>
    obtain ⟨hcoh, hI⟩ := ih fun st hst => hC st (List.mem_append_left _ hst)
    rw [pool_pop hqueue] at hcoh hI
    have hhand := coherent_push.1 hcoh
    have hturn := processToken_turned hhand hok
    exact ⟨Turned.coherent hhand hturn,
      hprocess _ _ _ _ (hC _ (List.mem_append_right _ List.mem_cons_self)) hhand hI hturn⟩

/-- The rule for an invariant of the pool alone. -/
theorem Trace.maintains {I : Pool → Prop} {C : Step → Prop} (hstart : ∀ n, I (Pool.start n))
    (hreload : ∀ P n, P.Coherent [] → P.pending = [] → P.nextId ≤ n → I P → I (P.reload n))
    (hcommand : ∀ before command after, C ⟨before, .command command, after⟩ →
      before.pool.Coherent [] → before.pool.pending = [] → I before.pool →
      Commanded d before.pool command after.pool → I after.pool)
    (hprocess : ∀ before t after, C ⟨before, .process t, after⟩ →
      before.pool.Coherent [t.erase] → I (before.pool.push t.erase) →
      Turned d before.pool t.erase after.pool → I after.pool)
    {steps : List Step} {ctx : ExecutionContext} (h : Trace d steps ctx) (hC : ∀ st ∈ steps, C st) :
    I ctx.pool :=
  (h.invariant (I := fun _ P => I P) hstart (fun _ => hreload) (fun _ => hcommand)
    (fun _ => hprocess) hC).2

/-- Every pool that a trace leads to is coherent. -/
theorem Trace.coherent {steps : List Step} {ctx : ExecutionContext} (h : Trace d steps ctx) :
    ctx.pool.Coherent [] :=
  (h.invariant (I := fun _ _ => True) (C := fun _ => True) (fun _ => trivial)
    (fun _ _ _ _ _ _ _ => trivial) (fun _ _ _ _ _ _ _ _ _ => trivial)
    (fun _ _ _ _ _ _ _ _ => trivial) fun _ _ => trivial).1

/-- In every pool that a trace leads to, the waiting tokens wait for what their elements say. -/
theorem Trace.justified {steps : List Step} {ctx : ExecutionContext} (h : Trace d steps ctx) :
    ctx.pool.Justified d := by
  refine h.maintains (C := fun _ => True) (fun _ => ?_) (fun _ _ _ _ _ hI => hI) ?_ ?_
    fun _ _ => trivial
  · exact fun _ hx => by cases hx
  · exact fun _ _ _ _ _ _ hI hcmd => hI.stillWaiting hcmd.stillWaiting
  · rintro before t after - - hI ⟨Q, origins, hturn, hmade⟩
    exact (Pool.Justified.turn (P := before.pool) hI hturn).spawned hmade

/-- In every pool that a trace leads to, the parents are tokens that may get children. -/
theorem Trace.kindred {steps : List Step} {ctx : ExecutionContext} (h : Trace d steps ctx) :
    ctx.pool.Kindred d := by
  refine h.maintains (C := fun _ => True) (fun _ => ?_) (fun _ _ _ _ _ hI => hI) ?_ ?_
    fun _ _ => trivial
  · exact fun _ hc => by cases hc
  · exact fun _ _ _ _ hcoh _ hI hcmd => hcmd.kindred hcoh hI
  · rintro before t after - hcoh hI ⟨Q, origins, hturn, hmade⟩
    have hbefore : before.pool.Kindred d := hI
    exact hturn.kindred hcoh hbefore hmade

/-! ## Every token is processed once -/

/-- The ids of the tokens that were taken from the queue. -/
def processedIds (steps : List Step) : List Nat :=
  steps.filterMap fun st =>
    match st.action with
    | .process t => some t.id
    | .command _ => none

theorem processedIds_concat_command (steps : List Step) (before after : ExecutionContext)
    (command : EngineCommand) :
    processedIds (steps ++ [⟨before, .command command, after⟩]) = processedIds steps := by
  simp [processedIds, List.filterMap_append]

theorem processedIds_concat_process (steps : List Step) (before after : ExecutionContext)
    (t : Token) :
    processedIds (steps ++ [⟨before, .process t, after⟩]) = processedIds steps ++ [t.id] := by
  simp [processedIds, List.filterMap_append]

/-- The tokens are those that were processed and those that are pending, each of them once. -/
def Accounted (done : List Nat) (P : Pool) : Prop := (done ++ P.pending.map (·.id)).Perm P.ids

theorem Accounted.frame {done : List Nat} {P Q : Pool} (h : Accounted done P) (hf : Frame P Q) :
    Accounted done Q := by
  unfold Accounted
  rw [hf.ids, hf.pending]
  exact h

theorem Accounted.spawned {done : List Nat} {α : Type} {R : α → Token → Prop} {items : List α}
    {P P' : Pool} (h : Accounted done P) (hmade : Spawned R items P P') : Accounted done P' := by
  obtain ⟨news, n, -, -, rfl⟩ := hmade
  unfold Accounted at h ⊢
  simp only [Pool.spawn, Pool.ids, List.map_append]
  rw [← List.append_assoc]
  exact h.append_right _

theorem Accounted.resumes {done : List Nat} {targets : List Token} {P P' : Pool}
    (hP : P.Coherent []) (h : Accounted done P) (hr : Resumes d targets P P') :
    Accounted done P' := by
  induction hr with
  | nil _ => exact h
  | skip _ _ _ ih => exact ih hP h
  | resume hw hwaiting hresume hmade _ ih =>
    refine ih ((hresume.ready hP hw hwaiting).spawned hmade) ?_
    exact (h.frame (hresume.frame hP.nodup (Pool.holds_of_mem hw))).spawned hmade

theorem Accounted.commanded {done : List Nat} {command : EngineCommand} {P P' : Pool}
    (hP : P.Coherent []) (h : Accounted done P) (hc : Commanded d P command P') :
    Accounted done P' := by
  cases hc with
  | deed hd hmade => exact (h.frame (hd.frame hP.nodup)).spawned hmade
  | deliverMessage _ _ hr => exact h.resumes hP hr
  | broadcastSignal _ _ hr => exact h.resumes hP hr

theorem Trace.accounted {steps : List Step} {ctx : ExecutionContext} (h : Trace d steps ctx) :
    Accounted (processedIds steps) ctx.pool := by
  refine (h.invariant (I := fun steps P => Accounted (processedIds steps) P) (C := fun _ => True)
    (fun _ => List.Perm.refl _) (fun _ _ _ _ _ _ hI => hI) ?_ ?_ fun _ _ => trivial).2
  · intro steps before command after _ hcoh _ hI hcmd
    rw [processedIds_concat_command]
    exact hI.commanded hcoh hcmd
  · rintro steps before t after - hcoh hI ⟨Q, origins, hturn, hmade⟩
    rw [processedIds_concat_process]
    have hhold : before.pool.Holds t.erase := hcoh.holds List.mem_cons_self
    have hpopped : Accounted (processedIds steps ++ [t.id]) before.pool := by
      unfold Accounted at hI ⊢
      rw [List.append_assoc]
      exact hI
    exact (hpopped.frame (hturn.frame hcoh.nodup hhold)).spawned hmade

/-- In a run every token is processed exactly once. -/
theorem Run.count_processedIds {steps : List Step} {state : EngineState} {nextId : Nat}
    (h : Run d steps state nextId) {t : Token} (ht : t ∈ state.tokens) :
    (processedIds steps).count t.id = 1 := by
  obtain ⟨ctx, inst, htrace, hqueue, -, rfl, -⟩ := h.trace
  have hperm := htrace.accounted
  rw [Accounted, show ctx.pool.pending = [] by simp [pool, hqueue], List.map_nil,
    List.append_nil] at hperm
  rw [hperm.count_eq]
  exact List.count_eq_one_of_mem ctx.nodup_pool (ctx.mem_ids ht)

/-! ## Splitting a trace -/

/-- A step of a trace: the history before it and the context in which it is made. -/
theorem Trace.split {steps : List Step} {ctx : ExecutionContext} (h : Trace d steps ctx)
    {earlier later : List Step} {st : Step} (hsteps : steps = earlier ++ st :: later) :
    ∃ ctx0, Trace d earlier ctx0 ∧ Trace d (earlier ++ [st]) st.after ∧
      ((∃ command, st.action = .command command ∧ st.before = ctx0 ∧ ctx0.pendingQueue = [] ∧
        handleCommand d ctx0 command = .ok st.after) ∨
      ∃ token rest, st.action = .process token ∧ ctx0.pendingQueue = token :: rest ∧
        st.before = { ctx0 with pendingQueue := rest } ∧
        processToken d st.before token = .ok st.after) := by
  induction h generalizing later with
  | create _ => simp at hsteps
  | reload _ _ _ _ ih => exact ih hsteps
  | @command hist before after htrace hqueue command hok ih =>
    rcases List.eq_nil_or_concat later with rfl | ⟨init, last, rfl⟩
    · obtain ⟨rfl, hst⟩ := List.append_inj' hsteps rfl
      obtain rfl := (List.cons.inj hst).1
      exact ⟨before, htrace, htrace.command hqueue hok, Or.inl ⟨command, rfl, rfl, hqueue, hok⟩⟩
    · rw [List.concat_eq_append, ← List.cons_append, ← List.append_assoc] at hsteps
      exact ih (List.append_inj' hsteps rfl).1
  | @process hist ctx after htrace token rest hqueue hok ih =>
    rcases List.eq_nil_or_concat later with rfl | ⟨init, last, rfl⟩
    · obtain ⟨rfl, hst⟩ := List.append_inj' hsteps rfl
      obtain rfl := (List.cons.inj hst).1
      exact ⟨ctx, htrace, htrace.process hqueue hok,
        Or.inr ⟨token, rest, rfl, hqueue, rfl, hok⟩⟩
    · rw [List.concat_eq_append, ← List.cons_append, ← List.append_assoc] at hsteps
      exact ih (List.append_inj' hsteps rfl).1

/-- A step in which a token is processed. -/
theorem Trace.split_process {steps : List Step} {ctx : ExecutionContext} (h : Trace d steps ctx)
    {earlier later : List Step} {st : Step} {t : Token} (hsteps : steps = earlier ++ st :: later)
    (hact : st.action = .process t) :
    ∃ ctx0, Trace d earlier ctx0 ∧ ctx0.pool = st.before.pool.push t.erase ∧
      st.before.pool.Coherent [t.erase] ∧ Turned d st.before.pool t.erase st.after.pool := by
  obtain ⟨ctx0, htrace, -, ⟨command, hcommand, -⟩ | ⟨token, rest, hprocess, hqueue, hbefore,
    hok⟩⟩ :=
    h.split hsteps
  · rw [hact] at hcommand
    cases hcommand
  · rw [hact] at hprocess
    cases hprocess
    have hpool := pool_pop hqueue
    rw [← hbefore] at hpool
    have hcoh := htrace.coherent
    rw [hpool, coherent_push] at hcoh
    exact ⟨ctx0, htrace, hpool, hcoh,
      processToken_turn hcoh.numbered (hcoh.holds List.mem_cons_self).mem_ids hok⟩

/-- A step in which a command is handled. -/
theorem Trace.split_command {steps : List Step} {ctx : ExecutionContext} (h : Trace d steps ctx)
    {earlier later : List Step} {st : Step} {command : EngineCommand}
    (hsteps : steps = earlier ++ st :: later) (hact : st.action = .command command) :
    Trace d earlier st.before ∧ st.before.pool.pending = [] ∧ st.before.pool.Coherent [] ∧
      Commanded d st.before.pool command st.after.pool := by
  obtain ⟨ctx0, htrace, -, ⟨c, hcommand, rfl, hqueue, hok⟩ | ⟨token, rest, hprocess, -, -, -⟩⟩ :=
    h.split hsteps
  · rw [hact] at hcommand
    cases hcommand
    exact ⟨htrace, by simp [pool, hqueue], htrace.coherent,
      handleCommand_commanded htrace.coherent.numbered hok⟩
  · rw [hact] at hprocess
    cases hprocess

/-! ## One call of `execute` -/

variable (d) in
/-- A call that starts a run or goes on with one, after the given history. -/
inductive Call : List Step → EngineCommand → Option EngineState → ExecuteOptions → Prop
  | start (vars : Option Variables) (correlationKey businessKey : Option String)
      (options : ExecuteOptions) :
      Call [] (.startProcess vars correlationKey businessKey) none options
  | next {steps : List Step} {state : EngineState} {nextId : Nat} (run : Run d steps state nextId)
      (command : EngineCommand) {options : ExecuteOptions} (hid : nextId ≤ options.firstId) :
      Call steps command (some state) options

/-- The tokens of the state given to `execute`. -/
def givenTokens (state : Option EngineState) : List Token := (state.map (·.tokens)).getD []

theorem Call.trace {steps : List Step} {command : EngineCommand} {state : Option EngineState}
    {options : ExecuteOptions} (h : Call d steps command state options) :
    Trace d steps (ExecutionContext.create state options) ∧
      (ExecutionContext.create state options).tokenMap.values = givenTokens state := by
  cases h with
  | start _ _ _ options => exact ⟨.create options, rfl⟩
  | next run _ hid =>
    obtain ⟨ctx, inst, htrace, hq, hi, rfl, rfl⟩ := run.trace
    refine ⟨htrace.reload hq hi hid, ?_⟩
    simp [ExecutionContext.create, ExecutionContext.toState, givenTokens, KeyedMap.ofList_values]

/-- A run and the call that follows it make a run. -/
theorem Call.run {steps : List Step} {fuel : Nat} {command : EngineCommand}
    {state : Option EngineState} {options : ExecuteOptions} {result : EngineResult}
    (h : Call d steps command state options)
    (hok : execute d fuel command state options = .ok result) :
    Run d (steps ++ cycleSteps d fuel command state options) result.newState result.nextId := by
  cases h with
  | start _ _ _ _ => exact .start hok
  | next run _ hid => exact run.next hid hok

/-- A token is put back at the head of the queue. -/
def ExecutionContext.unpop (ctx : ExecutionContext) (t : Token) : ExecutionContext :=
  { ctx with pendingQueue := t :: ctx.pendingQueue }

theorem pool_unpop (ctx : ExecutionContext) (t : Token) :
    (ctx.unpop t).pool = ctx.pool.push t.erase := rfl

/-- What every round of the run loop keeps, from a coherent pool on. -/
theorem runLoop_keeps {I : ExecutionContext → Prop} {C : Step → Prop}
    (hprocess : ∀ before t after, C ⟨before, .process t, after⟩ →
      before.pool.Coherent [t.erase] → I (before.unpop t) →
      processToken d before t = .ok after → I after)
    {fuel : Nat} {ctx ctx' : ExecutionContext} (hcoh : ctx.pool.Coherent []) (hI : I ctx)
    (hrun : NexusWorkflow.runLoop d fuel ctx = .ok ctx') (hC : ∀ st ∈ loopSteps d fuel ctx, C st) :
    I ctx' ∧ ctx'.pool.Coherent [] ∧ ctx'.pendingQueue = [] := by
  cases hq : ctx.pendingQueue with
  | nil =>
    rw [runLoop_nil d hq, Except.ok.injEq] at hrun
    exact hrun ▸ ⟨hI, hcoh, hq⟩
  | cons t rest =>
    induction fuel generalizing ctx t rest with
    | zero => simp [runLoop_zero d hq] at hrun
    | succ fuel ih =>
      rw [runLoop_cons d hq] at hrun
      obtain ⟨mid, hmid, hrun⟩ := Except.bind_eq_ok_iff.1 hrun
      rw [loopSteps_cons hq hmid] at hC
      rw [pool_pop hq] at hcoh
      have hhand := coherent_push.1 hcoh
      have hturned := processToken_turned hhand hmid
      have hmidI : I mid := by
        refine hprocess _ _ _ (hC _ List.mem_cons_self) hhand ?_ hmid
        unfold ExecutionContext.unpop
        rw [← hq]
        exact hI
      have hmidC : ∀ st ∈ loopSteps d fuel mid, C st := fun st hst =>
        hC st (List.mem_cons_of_mem _ hst)
      have hmidcoh : mid.pool.Coherent [] := Turned.coherent hhand hturned
      cases hq' : mid.pendingQueue with
      | nil =>
        rw [runLoop_nil d hq', Except.ok.injEq] at hrun
        exact hrun ▸ ⟨hmidI, hmidcoh, hq'⟩
      | cons t' rest' => exact ih hmidcoh hmidI hrun hmidC t' rest' hq'

/-- The rule for what holds in the course of a call on a coherent pool: the handler of the command
establishes it, and every round of the loop keeps it. -/
theorem execute_keeps {I : ExecutionContext → Prop} {C : Step → Prop} {fuel : Nat}
    {command : EngineCommand} {state : Option EngineState} {options : ExecuteOptions}
    {result : EngineResult} (hcoh : (ExecutionContext.create state options).pool.Coherent [])
    (hok : NexusWorkflow.execute d fuel command state options = .ok result)
    (hC : ∀ st ∈ cycleSteps d fuel command state options, C st)
    (hcommand : ∀ after, C ⟨ExecutionContext.create state options, .command command, after⟩ →
      handleCommand d (ExecutionContext.create state options) command = .ok after → I after)
    (hprocess : ∀ before t after, C ⟨before, .process t, after⟩ →
      before.pool.Coherent [t.erase] → I (before.unpop t) →
      processToken d before t = .ok after → I after) :
    ∃ (ctx : ExecutionContext) (inst : ProcessInstance), I ctx ∧ ctx.pool.Coherent [] ∧
      ctx.pendingQueue = [] ∧ ctx.inst = some inst ∧ result.newState = ctx.toState inst ∧
        result.events = ctx.events ∧ result.nextId = ctx.nextId := by
  unfold NexusWorkflow.execute at hok
  obtain ⟨mid, hmid, hok⟩ := Except.bind_eq_ok_iff.1 hok
  obtain ⟨ctx, hctx, hok⟩ := Except.bind_eq_ok_iff.1 hok
  unfold ExecutionContext.toResult at hok
  obtain ⟨inst, hinst, hok⟩ := Except.bind_eq_ok_iff.1 hok
  simp only [cycleSteps, hmid] at hC
  have hcmd := handleCommand_commanded hcoh.numbered hmid
  have hloop : ∀ st ∈ loopSteps d fuel mid, C st := fun st hst => hC st (List.mem_cons_of_mem _ hst)
  obtain ⟨hI, hcoh', hqueue⟩ := runLoop_keeps hprocess (hcmd.coherent hcoh)
    (hcommand mid (hC _ List.mem_cons_self) hmid) hctx hloop
  rw [← Except.ok.inj hok]
  refine ⟨ctx, inst, hI, hcoh', hqueue, ?_, rfl, rfl, rfl⟩
  unfold requireInstance at hinst
  cases hi : ctx.inst with
  | none => simp [hi] at hinst
  | some i => exact congrArg some (by simpa [hi] using hinst)

/-- The same for what holds of the pool, in a call that starts a run or goes on with one. -/
theorem Call.maintains {I : Pool → Prop} {C : Step → Prop} {steps : List Step} {fuel : Nat}
    {command : EngineCommand} {state : Option EngineState} {options : ExecuteOptions}
    {result : EngineResult} (h : Call d steps command state options)
    (hok : execute d fuel command state options = .ok result)
    (hC : ∀ st ∈ cycleSteps d fuel command state options, C st)
    (hcommand : ∀ after, C ⟨ExecutionContext.create state options, .command command, after⟩ →
      (ExecutionContext.create state options).pool.Coherent [] →
      Commanded d (ExecutionContext.create state options).pool command after.pool → I after.pool)
    (hprocess : ∀ before t after, C ⟨before, .process t, after⟩ →
      before.pool.Coherent [t.erase] → I (before.pool.push t.erase) →
      Turned d before.pool t.erase after.pool → I after.pool) :
    ∃ (ctx : ExecutionContext) (inst : ProcessInstance), I ctx.pool ∧
      result.newState = ctx.toState inst ∧ result.events = ctx.events := by
  have hcoh := h.trace.1.coherent
  obtain ⟨ctx, inst, hI, -, -, -, hstate, hevents, -⟩ :=
    execute_keeps (I := fun ctx => I ctx.pool) hcoh hok hC
      (fun after hst hok => hcommand after hst hcoh (handleCommand_commanded hcoh.numbered hok))
      fun before t after hst hhand hI hok => hprocess before t after hst hhand hI
        (processToken_turned hhand hok)
  exact ⟨ctx, inst, hI, hstate, hevents⟩

/-- A token that is settled after the command is as it was then when the call returns. -/
theorem Call.settled {steps : List Step} {fuel : Nat} {command : EngineCommand}
    {state : Option EngineState} {options : ExecuteOptions} {result : EngineResult} {x : Token}
    (h : Call d steps command state options)
    (hok : execute d fuel command state options = .ok result)
    (hcommand : ∀ after, (ExecutionContext.create state options).pool.Coherent [] →
      Commanded d (ExecutionContext.create state options).pool command after → after.Settled d x) :
    ∃ y ∈ result.newState.tokens, y.erase = x := by
  obtain ⟨htrace, -⟩ := h.trace
  obtain ⟨ctx, inst, ⟨-, hsettled⟩, hstate, -⟩ := h.maintains (C := fun _ => True)
    (I := fun P => P.Kindred d ∧ P.Settled d x) hok (fun _ _ => trivial)
    (fun after _ hcoh hcmd => ⟨hcmd.kindred hcoh htrace.kindred, hcommand _ hcoh hcmd⟩)
    fun before t after _ hcoh hI hturned =>
      Turned.settled (P := before.pool) hcoh hI.1 hI.2 hturned
  obtain ⟨y, hy, herase⟩ := List.mem_map.1 hsettled.mem
  rw [hstate]
  exact ⟨y, hy, herase⟩

/-! ## What a call does not touch -/

/-- The step may change the token. -/
def Step.Touches (d : ProcessDefinition) (st : Step) (x : Token) : Prop :=
  match st.action with
  | .command command => st.before.pool.TouchesCommand d x command
  | .process t => st.before.pool.TouchesTurn d t.erase x

instance (st : Step) (x : Token) : Decidable (st.Touches d x) := by
  unfold Step.Touches
  split <;> infer_instance

/-- A token that none of the steps touches is as it was when the call returns. -/
theorem Call.stays {steps : List Step} {fuel : Nat} {command : EngineCommand}
    {state : Option EngineState} {options : ExecuteOptions} {result : EngineResult}
    (h : Call d steps command state options)
    (hok : execute d fuel command state options = .ok result) {x : Token}
    (hx : x ∈ givenTokens state)
    (hnot : ∀ st ∈ cycleSteps d fuel command state options, ¬ st.Touches d x.erase) :
    ∃ y ∈ result.newState.tokens, y.erase = x.erase := by
  obtain ⟨-, htokens⟩ := h.trace
  rw [← htokens] at hx
  obtain ⟨ctx, inst, hmem, hstate, -⟩ := h.maintains (I := fun P => x.erase ∈ P.tokens) hok hnot
    (fun _ hst _ hcmd => hcmd.stays (ExecutionContext.mem_pool _ hx) hst)
    fun before _ _ hst _ hI hturned =>
      have hbefore : x.erase ∈ before.pool.tokens := hI
      hturned.stays hbefore hst
  obtain ⟨y, hy, herase⟩ := List.mem_map.1 hmem
  rw [hstate]
  exact ⟨y, hy, herase⟩

end NexusWorkflow
