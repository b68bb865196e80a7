import NexusWorkflow.Game.Acts
import NexusWorkflow.Game.Fate
import NexusWorkflow.Run.Diagram
import NexusWorkflow.Run.UserWaits

/-!
# Commands on a suspended instance

Only the completion of a task looks at the status of the instance, and puts a suspended one back to
active.  Timers at boundary events, messages and signals go on without it, and so do failures and a
second start.
-/

namespace NexusWorkflow

open ExecutionContext

/-! ## The law -/

/-- On a suspended instance either nothing happens, or first of all the instance is resumed, and it
is not suspended then. -/
def Freezes (state : EngineState) (result : EngineResult) : Prop :=
  (result.newState = state ∧ result.events = []) ∨
    (result.events.head? = some (.processInstanceResumed state.inst.id) ∧
      result.newState.inst.status ≠ .suspended)

/-- Another token of the same parent waits: `cancelEbgSiblings` would cancel it. -/
def Token.Contested (t : Token) (state : EngineState) : Prop :=
  t.parentTokenId ≠ none ∧ ∃ x ∈ state.tokens,
    x.id ≠ t.id ∧ x.parentTokenId = t.parentTokenId ∧ x.status = .waiting

instance (t : Token) (state : EngineState) : Decidable (t.Contested state) :=
  inferInstanceAs (Decidable (_ ∧ _))

/-- The commands that leave a suspended instance alone, or resume it before they do anything
else. -/
def EngineCommand.Respects (state : EngineState) : EngineCommand → Prop
  | .completeServiceTask _ _ | .completeUserTask _ _ _ => True
  | .fireTimer id => ∀ t ∈ state.tokens, t.id = id →
      t.elementType ≠ .boundaryEvent ∧ ¬ t.Contested state
  | .deliverMessage name _ => ∀ t ∈ state.tokens, ¬ t.awaitsMessage name
  | .broadcastSignal name _ => ∀ t ∈ state.tokens, ¬ t.awaitsSignal name
  | .startProcess _ _ _ | .failServiceTask _ _ _ => False
  | .suspendInstance | .resumeInstance | .cancelInstance => True

instance (state : EngineState) (command : EngineCommand) : Decidable (command.Respects state) := by
  unfold EngineCommand.Respects
  rcases command with _ | _ | _ | _ | _ | _ | _ | _ | _ | _ <;> infer_instance

variable {d : ProcessDefinition} {fuel : Nat} {steps : List Step} {state : EngineState}
  {nextId : Nat} {command : EngineCommand} {options : ExecuteOptions} {result : EngineResult}
  {ctx ctx' : ExecutionContext}

/-! ## What the rounds of the loop keep -/

theorem processToken_head? {t : Token} {e : ExecutionEvent}
    (h : processToken d ctx t = .ok ctx') (hhead : ctx.events.head? = some e) :
    ctx'.events.head? = some e := by
  obtain ⟨labels, -, hacts⟩ := processToken_acts h
  exact hacts.head?_events hhead

theorem Acts.notSuspended {labels : List Label} (h : Acts labels ctx ctx')
    (hstatus : ctx.inst.map (·.status) ≠ some .suspended) :
    ctx'.inst.map (·.status) ≠ some .suspended := by
  rcases h.inst with hinst | ⟨-, hcompleted⟩
  · rwa [hinst]
  · rw [hcompleted]
    decide

theorem Acts.allOfTurn {labels : List Label} (h : Acts labels ctx ctx')
    (hall : ∀ e ∈ ctx.events, e.ofTurn = true) : ∀ e ∈ ctx'.events, e.ofTurn = true := by
  obtain ⟨more, heq, hmore⟩ := h.events
  rw [heq]
  exact List.forall_mem_append.2 ⟨hall, hmore⟩

/-- The first event of a call comes from the handler of the command. -/
theorem execute_head? {e : ExecutionEvent}
    (hcoh : (ExecutionContext.create (some state) options).pool.Coherent [])
    (h : execute d fuel command (some state) options = .ok result)
    (hcommand : ∀ after,
      handleCommand d (ExecutionContext.create (some state) options) command = .ok after →
        after.events.head? = some e) :
    result.events.head? = some e := by
  obtain ⟨ctx, inst, hhead, -, -, -, -, hevents, -⟩ :=
    execute_keeps (I := fun ctx => ctx.events.head? = some e) (C := fun _ => True) hcoh h
      (fun _ _ => trivial) (fun after _ hok => hcommand after hok)
      fun before t after _ _ hhead hok => processToken_head? hok hhead
  rw [hevents]
  exact hhead

theorem emit_head? {e : ExecutionEvent} (h : ctx.events.head? = some e)
    (later : ExecutionEvent) : (ctx.emit later).events.head? = some e := by
  show (ctx.events ++ [later]).head? = some e
  rw [List.head?_append, h]
  rfl

theorem not_freezes_of_head? {e : ExecutionEvent}
    (h : result.events.head? = some e)
    (hne : e ≠ .processInstanceResumed state.inst.id) : ¬ Freezes state result := by
  rintro (⟨-, hevents⟩ | ⟨hhead, -⟩)
  · rw [hevents] at h
    cases h
  · rw [hhead] at h
    exact hne (Option.some.inj h).symm

/-- Nobody resumes the instance, and a token that waited waits no longer. -/
theorem not_freezes_of_ofTurn {t : Token} (ht : t ∈ state.tokens) (hwaiting : t.status = .waiting)
    (hcoh : (ExecutionContext.create (some state) options).pool.Coherent [])
    (hlt : t.id < options.firstId)
    (h : execute d fuel command (some state) options = .ok result)
    (hcommand : ∀ after,
      handleCommand d (ExecutionContext.create (some state) options) command = .ok after →
        ∀ e ∈ after.events, e.ofTurn = true)
    (hceased : ∀ after,
      Commanded d (ExecutionContext.create (some state) options).pool command after →
        after.Ceased t.id) : ¬ Freezes state result := by
  obtain ⟨ctx, inst, hall, -, -, -, -, hevents, -⟩ :=
    execute_keeps (I := fun ctx => ∀ e ∈ ctx.events, e.ofTurn = true) (C := fun _ => True) hcoh h
      (fun _ _ => trivial) (fun after _ hok => hcommand after hok)
      fun before t after _ _ hall hok => by
        obtain ⟨labels, -, hacts⟩ := processToken_acts hok
        exact hacts.allOfTurn (show ∀ e ∈ before.events, _ from hall)
  rintro (⟨hstate, -⟩ | ⟨hhead, -⟩)
  · refine execute_ceases hcoh hlt h hceased t ?_ rfl hwaiting
    rw [hstate]
    exact ht
  · rw [hevents] at hhead
    have hof := hall _ (List.mem_of_mem_head? hhead)
    cases hof

/-! ## The completion of a task -/

theorem autoResume_suspended {inst : ProcessInstance} (hinst : ctx.inst = some inst)
    (hsuspended : inst.status = .suspended) (h : autoResume ctx = .ok ctx') :
    ctx'.events = ctx.events ++ [.processInstanceResumed inst.id] ∧
      ctx'.inst.map (·.status) = some .active := by
  unfold autoResume ExecutionContext.requireInstance at h
  rw [hinst] at h
  obtain ⟨i, hi, h⟩ := Except.bind_eq_ok_iff.1 h
  obtain rfl := Except.ok.inj hi
  rw [if_pos hsuspended] at h
  rw [← Except.ok.inj h]
  exact ⟨rfl, rfl⟩

theorem handleCompleteTask_resumes {id : Nat} {vars : Option Variables} {inst : ProcessInstance}
    (hinst : ctx.inst = some inst) (hsuspended : inst.status = .suspended)
    (h : handleCompleteTask d ctx id vars = .ok ctx') :
    (∃ more, ctx'.events = ctx.events ++ .processInstanceResumed inst.id :: more) ∧
      ctx'.inst.map (·.status) ≠ some .suspended := by
  obtain ⟨w, resumed, labels, -, -, hresumed, -, hacts⟩ := handleCompleteTask_acts h
  obtain ⟨hevents, hactive⟩ := autoResume_suspended hinst hsuspended hresumed
  refine ⟨?_, hacts.notSuspended (by rw [hactive]; decide)⟩
  obtain ⟨more, heq, -⟩ := hacts.events
  rw [heq, hevents, List.append_assoc]
  exact ⟨more, rfl⟩

/-- A command that begins with the resumption of the instance. -/
theorem freezes_of_resumes
    (hcoh : (ExecutionContext.create (some state) options).pool.Coherent [])
    (h : execute d fuel command (some state) options = .ok result)
    (hcommand : ∀ after,
      handleCommand d (ExecutionContext.create (some state) options) command = .ok after →
        (∃ more, after.events = .processInstanceResumed state.inst.id :: more) ∧
          after.inst.map (·.status) ≠ some .suspended) : Freezes state result := by
  refine .inr ⟨execute_head? hcoh h fun after hok => ?_, ?_⟩
  · obtain ⟨⟨more, hevents⟩, -⟩ := hcommand after hok
    rw [hevents]
    rfl
  · obtain ⟨ctx, inst, hstatus, -, -, hinst, hstate, -, -⟩ :=
      execute_keeps (I := fun ctx => ctx.inst.map (·.status) ≠ some .suspended)
        (C := fun _ => True) hcoh h (fun _ _ => trivial)
        (fun after _ hok => (hcommand after hok).2)
        fun before t after _ _ hstatus hok => by
          obtain ⟨labels, -, hacts⟩ := processToken_acts hok
          exact hacts.notSuspended (show before.inst.map (·.status) ≠ _ from hstatus)
    rw [hinst] at hstatus
    rw [hstate]
    exact fun heq => hstatus (congrArg some heq)

/-! ## The timers of branches -/

theorem cancelEbgSiblings_uncontested {t : Token} (htokens : ctx.tokenMap.values = state.tokens)
    (h : ¬ t.Contested state) :
    (cancelEbgSiblings ctx t).events = ctx.events ∧ (cancelEbgSiblings ctx t).inst = ctx.inst := by
  unfold cancelEbgSiblings
  cases hparent : t.parentTokenId with
  | none => exact ⟨rfl, rfl⟩
  | some parent =>
    have hnone : (ctx.getAllTokens.filter fun x =>
        x.id ≠ t.id ∧ x.parentTokenId = some parent ∧ x.status = .waiting) = [] := by
      rw [List.filter_eq_nil_iff]
      intro x hx hsibling
      have hx : x ∈ state.tokens := htokens ▸ hx
      refine h ⟨by simp [hparent], x, hx, ?_⟩
      rw [hparent]
      exact of_decide_eq_true hsibling
    simp only [hnone]
    exact ⟨rfl, rfl⟩

/-- The first sibling is reported as cancelled before anything else. -/
theorem cancelEbgSiblings_contested {t : Token} (htokens : ctx.tokenMap.values = state.tokens)
    (hevents : ctx.events = []) (h : t.Contested state) :
    ∃ x : Token, (cancelEbgSiblings ctx t).events.head? =
      some (.tokenCancelled x.instanceId x.id x.elementId) := by
  obtain ⟨hparent, x, hx, hid, hsame, hwaiting⟩ := h
  obtain ⟨parent, hp⟩ := Option.ne_none_iff_exists'.1 hparent
  unfold cancelEbgSiblings
  simp only [hp]
  have hmem : x ∈ ctx.getAllTokens.filter fun x =>
      x.id ≠ t.id ∧ x.parentTokenId = some parent ∧ x.status = .waiting := by
    refine List.mem_filter.2 ⟨?_, decide_eq_true ⟨hid, hsame.trans hp, hwaiting⟩⟩
    rw [← htokens] at hx
    exact hx
  cases hsiblings : ctx.getAllTokens.filter fun x =>
      x.id ≠ t.id ∧ x.parentTokenId = some parent ∧ x.status = .waiting with
  | nil =>
    rw [hsiblings] at hmem
    cases hmem
  | cons first others =>
    refine ⟨first, ?_⟩
    unfold ExecutionContext.cancelTokens
    simp only [List.foldl_cons]
    refine (Acts.foldl (fun c y => cancelToken_acts c y _) others _).head?_events ?_
    show (ctx.events ++ [_]).head? = _
    rw [hevents]
    rfl

/-! ## The exact condition -/

/-- What a reachable state is to the first context of a call. -/
theorem Run.reload_eq (run : Run d steps state nextId) (options : ExecuteOptions) :
    (ExecutionContext.create (some state) options).tokenMap.values = state.tokens ∧
      (ExecutionContext.create (some state) options).toState state.inst = state := by
  obtain ⟨ctx, inst, -, -, -, rfl, -⟩ := run.trace
  constructor
  · simp [ExecutionContext.create, ExecutionContext.toState, KeyedMap.ofList_values]
  · simp [ExecutionContext.create, ExecutionContext.toState, KeyedMap.ofList_values]

theorem Run.mem_pool (run : Run d steps state nextId) (hid : nextId ≤ options.firstId) {t : Token}
    (ht : t ∈ state.tokens) :
    t.erase ∈ (ExecutionContext.create (some state) options).pool.tokens ∧
      t.id < options.firstId := by
  have hmem : t.erase ∈ (ExecutionContext.create (some state) options).pool.tokens := by
    refine ExecutionContext.mem_pool _ ?_
    rw [(run.reload_eq options).1]
    exact ht
  have hnumbered := (Call.next run .suspendInstance hid).trace.1.coherent.numbered
  exact ⟨hmem, hnumbered t.erase hmem⟩

/-- No target of a message or a signal waits when all of them have been resumed. -/
theorem Resumes.ceased {P P' : Pool} {targets : List Token} (hP : P.Coherent [])
    (h : Resumes d targets P P') {w : Token} (hw : w ∈ targets) : P'.Ceased w.id := by
  induction h with
  | nil => cases hw
  | @skip v rest P P' x hx hnot h ih =>
    rcases List.mem_cons.1 hw with rfl | hw
    · obtain ⟨hmem, hid⟩ := Pool.get?_eq_some hx
      have hceased : P.Ceased w.id := by
        intro y hy hyid hyw
        rw [Pool.eq_of_id hP.nodup hy hmem (hyid.trans hid.symm)] at hyw
        exact hnot hyw
      exact hceased.still h.stillWaiting
    · exact ih hP hw
  | @resume v rest P P' hv hwaiting Q mid origins hresume hmade h ih =>
    have hready := hresume.ready hP hv hwaiting
    rcases List.mem_cons.1 hw with rfl | hw
    · obtain ⟨-⟩ := hresume
      exact (((P.ceased_finish w).still (.clearSiblings _ w)).still hmade.stillWaiting).still
        h.stillWaiting
    · exact ih (hready.spawned hmade) hw

/-- The command goes to tokens that wait for it, and they do not wait afterwards; nothing resumes
the instance. -/
theorem not_freezes_of_resumeTargets (run : Run d steps state nextId)
    (hid : nextId ≤ options.firstId) {isTarget : Token → Bool} {vars : Option Variables}
    (hhandle : ∀ ctx, handleCommand d ctx command = resumeTargets d ctx isTarget vars)
    {t : Token} (ht : t ∈ state.tokens) (hwaiting : t.status = .waiting)
    (h : execute d fuel command (some state) options = .ok result)
    (hceased : ∀ after,
      Commanded d (ExecutionContext.create (some state) options).pool command after →
        after.Ceased t.id) : ¬ Freezes state result := by
  refine not_freezes_of_ofTurn ht hwaiting (Call.next run command hid).trace.1.coherent
    (run.mem_pool hid ht).2 h (fun after hok => ?_) hceased
  rw [hhandle] at hok
  obtain ⟨labels, -, hacts⟩ := resumeTargets_acts hok
  exact hacts.allOfTurn (List.forall_mem_nil _)

/-- Without a target nothing happens. -/
theorem unchanged_of_no_target (run : Run d steps state nextId) {isTarget : Token → Bool}
    {vars : Option Variables}
    (hhandle : ∀ ctx, handleCommand d ctx command = resumeTargets d ctx isTarget vars)
    (hnone : ∀ t ∈ state.tokens, (t.status = .waiting && isTarget t) = false)
    (h : execute d fuel command (some state) options = .ok result) :
    result.newState = state ∧ result.events = [] := by
  obtain ⟨htokens, hstate⟩ := run.reload_eq options
  have hfilter : ((ExecutionContext.create (some state) options).getAllTokens.filter fun t =>
      t.status = .waiting && isTarget t) = [] := by
    rw [List.filter_eq_nil_iff]
    intro t ht
    rw [ExecutionContext.getAllTokens, htokens] at ht
    simpa using hnone t ht
  unfold execute at h
  rw [hhandle, resumeTargets, hfilter, List.foldlM_nil] at h
  obtain ⟨mid, hmid, h⟩ := Except.bind_eq_ok_iff.1 h
  obtain rfl := Except.pure_eq_ok_iff.1 hmid
  rw [runLoop_nil d rfl] at h
  obtain ⟨mid, hmid, h⟩ := Except.bind_eq_ok_iff.1 h
  obtain rfl := Except.ok.inj hmid
  obtain ⟨inst, hinst, h⟩ := Except.bind_eq_ok_iff.1 h
  obtain rfl : inst = state.inst := (Option.some.inj (requireInstance_eq hinst)).symm
  rw [← Except.ok.inj h]
  exact ⟨hstate, rfl⟩

theorem handleCompleteTask_head? {id : Nat} {vars : Option Variables} {e : ExecutionEvent}
    (hhead : ctx.events.head? = some e) (h : handleCompleteTask d ctx id vars = .ok ctx') :
    ctx'.events.head? = some e := by
  obtain ⟨w, resumed, labels, -, -, hresumed, -, hacts⟩ := handleCompleteTask_acts h
  refine hacts.head?_events ?_
  unfold autoResume at hresumed
  obtain ⟨inst, -, hresumed⟩ := Except.bind_eq_ok_iff.1 hresumed
  split at hresumed
  · rw [← Except.ok.inj hresumed]
    exact emit_head? (show (ctx.setInstance _).events.head? = some e from hhead) _
  · rw [← Except.ok.inj hresumed]
    exact hhead

/-- The token of a boundary e whose timer fires is completed. -/
theorem Deed.ceased_boundary {P Q : Pool} {origins : List Origin} {id : Nat}
    (hboundary : ∀ w ∈ P.tokens, w.id = id → w.elementType = .boundaryEvent)
    (h : Deed d P (.fireTimer id) Q origins) : Q.Ceased id := by
  cases h with
  | fireInterrupting _ _ _ _ _ => exact (P.ceased_finish _).still (.cancelAll _ _)
  | fireBoundary _ _ _ _ _ => exact P.ceased_finish _
  | fireCatch hw _ htype _ => exact absurd (hboundary _ hw rfl) htype

/-- The timer of a boundary event, or of a token with waiting siblings. -/
theorem not_freezes_fireTimer {t : Token} (run : Run d steps state nextId)
    (hid : nextId ≤ options.firstId)
    (h : execute d fuel (.fireTimer t.id) (some state) options = .ok result) (ht : t ∈ state.tokens)
    (hnot : ¬ (t.elementType ≠ .boundaryEvent ∧ ¬ t.Contested state)) : ¬ Freezes state result := by
  have hcoh := (Call.next run (.fireTimer t.id) hid).trace.1.coherent
  have htokens := (run.reload_eq options).1
  obtain ⟨hmem, hlt⟩ := run.mem_pool hid ht
  have hget : (ExecutionContext.create (some state) options).tokenMap.get? t.id = some t :=
    KeyedMap.get?_eq_some_iff.2 ⟨by rw [htokens]; exact ht, rfl⟩
  have hcases : ∀ after,
      handleFireTimer d (ExecutionContext.create (some state) options) t.id = .ok after →
        t.status = .waiting ∧ (t.elementType = .boundaryEvent ∧
            Acts [] (ExecutionContext.create (some state) options) after ∨
          t.elementType ≠ .boundaryEvent ∧ handleCompleteTask d (cancelEbgSiblings
            (ExecutionContext.create (some state) options) t) t.id none = .ok after) := by
    intro after hok
    obtain ⟨w, hw, hcase⟩ := handleFireTimer_cases hok
    obtain rfl := Option.some.inj (hw.symm.trans hget)
    exact hcase
  by_cases hboundary : t.elementType = .boundaryEvent
  · obtain ⟨mid, hmid, -⟩ := Except.bind_eq_ok_iff.1 h
    refine not_freezes_of_ofTurn ht (hcases mid hmid).1 hcoh hlt h (fun after hok => ?_)
      fun after hcommanded => ?_
    · rcases (hcases after hok).2 with ⟨-, hacts⟩ | ⟨hne, -⟩
      · exact hacts.allOfTurn (List.forall_mem_nil _)
      · exact absurd hboundary hne
    · cases hcommanded with
      | deed hdeed hmade =>
        refine (hdeed.ceased_boundary fun w hw hid => ?_).still hmade.stillWaiting
        have heq : w = t.erase := Pool.eq_of_id hcoh.nodup hw hmem hid
        rw [heq]
        exact hboundary
  · have hcontested : t.Contested state := by
      by_contra hc
      exact hnot ⟨hboundary, hc⟩
    obtain ⟨x, hx⟩ := cancelEbgSiblings_contested htokens rfl hcontested
    refine not_freezes_of_head? (e := .tokenCancelled x.instanceId x.id x.elementId)
      (execute_head? hcoh h fun after hok => ?_) (nofun)
    rcases (hcases after hok).2 with ⟨htype, -⟩ | ⟨-, hcomplete⟩
    · exact absurd htype hboundary
    · exact handleCompleteTask_head? hx hcomplete

theorem not_freezes_startProcess {vars : Option Variables}
    {correlationKey businessKey : Option String}
    (hcoh : (ExecutionContext.create (some state) options).pool.Coherent [])
    (h : execute d fuel (.startProcess vars correlationKey businessKey) (some state) options =
      .ok result) : ¬ Freezes state result := by
  refine not_freezes_of_head? (e := .processInstanceStarted options.firstId d.id d.version)
    (execute_head? hcoh h fun after hok => ?_) (nofun)
  have hok : handleStartProcess d _ vars correlationKey businessKey = .ok after := hok
  unfold handleStartProcess at hok
  obtain ⟨element, -, hok⟩ := Except.bind_eq_ok_iff.1 hok
  rw [← Except.ok.inj hok]
  rfl

theorem handleFailServiceTask_head? {id : Nat} {code message : String} (hevents : ctx.events = [])
    (h : handleFailServiceTask d ctx id code message = .ok ctx') :
    ∃ (inst : ProcessInstance) (t : Token), ctx'.events.head? =
      some (.serviceTaskFailed inst.id t.id t.elementId message 1) := by
  unfold handleFailServiceTask at h
  obtain ⟨t, -, h⟩ := Except.bind_eq_ok_iff.1 h
  obtain ⟨inst, -, h⟩ := Except.bind_eq_ok_iff.1 h
  refine ⟨inst, t, ?_⟩
  have hsay : (ctx.emit (.serviceTaskFailed inst.id t.id t.elementId message 1)).events.head? =
      some (.serviceTaskFailed inst.id t.id t.elementId message 1) := by
    show (ctx.events ++ [_]).head? = _
    rw [hevents]
    rfl
  simp only at h
  generalize ctx.emit (.serviceTaskFailed inst.id t.id t.elementId message 1) = said at h hsay
  split at h
  · exact (moveTokenToFlows_acts h).head?_events
      (emit_head? (emit_head? ((cancelFailed_acts said t).head?_events hsay) _) _)
  · rw [← Except.ok.inj h]
    exact emit_head? (emit_head? hsay _) _

theorem not_freezes_failServiceTask {id : Nat} {code message : String}
    (hcoh : (ExecutionContext.create (some state) options).pool.Coherent [])
    (h : execute d fuel (.failServiceTask id code message) (some state) options = .ok result) :
    ¬ Freezes state result := by
  obtain ⟨mid, hmid, -⟩ := Except.bind_eq_ok_iff.1 h
  obtain ⟨inst, t, hhead⟩ := handleFailServiceTask_head? rfl hmid
  refine not_freezes_of_head? (execute_head? hcoh h fun after hok => ?_)
    (e := .serviceTaskFailed inst.id t.id t.elementId message 1) (nofun)
  rw [← Except.ok.inj (hmid.symm.trans hok)]
  exact hhead

theorem Call.exists_run (call : Call d steps command (some state) options) :
    ∃ nextId, Run d steps state nextId ∧ nextId ≤ options.firstId := by
  cases call with
  | next run _ hid => exact ⟨_, run, hid⟩

/-- On a suspended instance, a command that `execute` accepts obeys the law exactly if it is the
completion of a task, the timer of a token that neither stands at a boundary event nor has a waiting
sibling, or a message or signal that nobody awaits. -/
theorem freezes_iff (call : Call d steps command (some state) options)
    (hsuspended : state.inst.status = .suspended) (hresume : command ≠ .resumeInstance)
    (hcancel : command ≠ .cancelInstance)
    (h : execute d fuel command (some state) options = .ok result) :
    Freezes state result ↔ command.Respects state := by
  have hcoh := call.trace.1.coherent
  obtain ⟨nextId, run, hid⟩ := call.exists_run
  have htokens := (run.reload_eq options).1
  cases command with
  | startProcess vars correlationKey businessKey =>
    exact iff_of_false (not_freezes_startProcess hcoh h) id
  | completeServiceTask id vars =>
    refine iff_of_true (freezes_of_resumes hcoh h fun after hok => ?_) trivial
    exact handleCompleteTask_resumes rfl hsuspended hok
  | completeUserTask id completedBy vars =>
    refine iff_of_true (freezes_of_resumes hcoh h fun after hok => ?_) trivial
    exact handleCompleteTask_resumes rfl hsuspended hok
  | failServiceTask id code message =>
    exact iff_of_false (not_freezes_failServiceTask hcoh h) fun hfalse => hfalse
  | fireTimer id =>
    constructor
    · intro hfreezes t ht htid
      by_contra hnot
      rw [← htid] at h
      exact not_freezes_fireTimer run hid h ht hnot hfreezes
    · intro hrespects
      refine freezes_of_resumes hcoh h fun after hok => ?_
      obtain ⟨t, hget, -, hcase⟩ := handleFireTimer_cases hok
      obtain ⟨hmem, htid⟩ := KeyedMap.get?_eq_some_iff.1 hget
      rw [htokens] at hmem
      obtain ⟨hne, hfree⟩ := hrespects t hmem htid
      rcases hcase with ⟨htype, -⟩ | ⟨-, hcomplete⟩
      · exact absurd htype hne
      · obtain ⟨hevents, hinst⟩ := cancelEbgSiblings_uncontested (t := t) htokens hfree
        obtain ⟨⟨more, heq⟩, hstatus⟩ := handleCompleteTask_resumes hinst hsuspended hcomplete
        refine ⟨⟨more, ?_⟩, hstatus⟩
        rw [heq, hevents]
        rfl
  | deliverMessage name vars =>
    constructor
    · intro hfreezes t ht hawaits
      refine not_freezes_of_resumeTargets run hid (fun _ => rfl) ht
        (Token.awaitsMessage_waiting hawaits) h
        (fun after hcommanded => ?_) hfreezes
      cases hcommanded with
      | deed hdeed _ => cases hdeed
      | deliverMessage _ _ hresumes =>
        exact hresumes.ceased hcoh (w := t.erase)
          (List.mem_filter.2 ⟨(run.mem_pool hid ht).1, hawaits⟩)
    · intro hnone
      exact .inl (unchanged_of_no_target run (fun _ => rfl)
        (fun t ht => Bool.eq_false_iff.2 (hnone t ht)) h)
  | broadcastSignal name vars =>
    constructor
    · intro hfreezes t ht hawaits
      refine not_freezes_of_resumeTargets run hid (fun _ => rfl) ht
        (Token.awaitsSignal_waiting hawaits) h
        (fun after hcommanded => ?_) hfreezes
      cases hcommanded with
      | deed hdeed _ => cases hdeed
      | broadcastSignal _ _ hresumes =>
        exact hresumes.ceased hcoh (w := t.erase)
          (List.mem_filter.2 ⟨(run.mem_pool hid ht).1, hawaits⟩)
    · intro hnone
      exact .inl (unchanged_of_no_target run (fun _ => rfl)
        (fun t ht => Bool.eq_false_iff.2 (hnone t ht)) h)
  | suspendInstance =>
    -- the command is refused
    obtain ⟨mid, hmid, -⟩ := Except.bind_eq_ok_iff.1 h
    have hmid : handleSuspendInstance _ = .ok mid := hmid
    unfold handleSuspendInstance at hmid
    obtain ⟨inst, hinst, hmid⟩ := Except.bind_eq_ok_iff.1 hmid
    obtain rfl : inst = state.inst := (Option.some.inj (requireInstance_eq hinst)).symm
    rw [if_pos (by rw [hsuspended]; decide)] at hmid
    cases hmid
  | resumeInstance => exact absurd rfl hresume
  | cancelInstance => exact absurd rfl hcancel

/-! ## A message to a suspended instance -/

namespace Diagram

def replyFlows : List SequenceFlow :=
  [.between "toAnswer" "start" "answer", .between "toCheck" "answer" "check",
    .between "toEnd" "check" "end"]

/-- A message is waited for, and then there is a user task. -/
def reply : ProcessDefinition :=
  definition replyFlows
    [start replyFlows "start",
      catchEvent replyFlows "answer" { type := .message, messageName := some "answer" },
      userTask replyFlows "check", finish replyFlows "end" .none]

end Diagram

open Diagram

/-- The user task of a suspended instance is completed. -/
theorem freezes_interview : ∃ (r : Replay) (result : EngineResult),
    r.state.inst.status = .suspended ∧
    execute interview 10 (.completeUserTask 3 "user" none) (some r.state)
      (stopped always r.nextId) = .ok result ∧ Freezes r.state result := by
  obtain ⟨r, result, call, hok, htest⟩ := exists_call_of_replay interview always 10 none
    [.suspendInstance] (.completeUserTask 3 "user" none)
    (fun r _ => r.state.inst.status = .suspended) (by decide +kernel)
  have hsuspended := of_decide_eq_true htest
  exact ⟨r, result, hsuspended, hok,
    (freezes_iff call hsuspended (nofun) (nofun) hok).2 trivial⟩

/-- The answer arrives while the instance is suspended: the token goes on to the user task, and the
instance is suspended all the while. -/
theorem not_freezes_reply : ∃ (r : Replay) (result : EngineResult),
    Call reply r.steps (.deliverMessage "answer" none) (some r.state) (stopped always r.nextId) ∧
    r.state.inst.status = .suspended ∧
    execute reply 10 (.deliverMessage "answer" none) (some r.state)
      (stopped always r.nextId) = .ok result ∧
    result.newState.inst.status = .suspended ∧
    (∃ t ∈ result.newState.tokens, t.elementId = "answer" ∧ t.status = .completed) ∧
    (∃ t ∈ result.newState.tokens, t.elementId = "check" ∧ t.status = .waiting) ∧
    ¬ Freezes r.state result := by
  obtain ⟨r, result, call, hok, htest⟩ := exists_call_of_replay reply always 10 none
    [.suspendInstance] (.deliverMessage "answer" none)
    (fun r result => r.state.inst.status = .suspended ∧ result.newState.inst.status = .suspended ∧
      (∃ t ∈ result.newState.tokens, t.elementId = "answer" ∧ t.status = .completed) ∧
      (∃ t ∈ result.newState.tokens, t.elementId = "check" ∧ t.status = .waiting) ∧
      ∀ t ∈ r.state.tokens, t.elementId ≠ "check") (by decide +kernel)
  obtain ⟨hsuspended, hstill, hanswer, hcheck, hnot⟩ := of_decide_eq_true htest
  refine ⟨r, result, call, hsuspended, hok, hstill, hanswer, hcheck, ?_⟩
  rintro (⟨hstate, -⟩ | ⟨-, hresumed⟩)
  · obtain ⟨t, ht, helement, -⟩ := hcheck
    exact hnot t (hstate ▸ ht) helement
  · exact hresumed hstill

end NexusWorkflow
