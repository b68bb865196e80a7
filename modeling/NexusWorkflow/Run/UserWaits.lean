import NexusWorkflow.Model.Routes
import NexusWorkflow.Run.Reload

/-!
# Tokens that start to wait for a user

A token starts to wait for a user in one place only, its turn at a user task, and then an event says
so.  So the events of a call name every token that has begun to wait for a user, and each of them
once.
-/

namespace NexusWorkflow

open ExecutionContext

variable {d : ProcessDefinition}

/-! ## What events say -/

/-- What an event says about a token that starts to wait for a user. -/
structure UserWait where
  instanceId : Nat
  tokenId : Nat
  elementId : String
  deriving DecidableEq

def ExecutionEvent.userWait : ExecutionEvent → Option UserWait
  | .tokenWaiting instanceId tokenId elementId waitingFor =>
      if waitingFor.type = .userTask then some ⟨instanceId, tokenId, elementId⟩ else none
  | _ => none

/-- The tokens that events report as waiting for a user. -/
def userWaits (events : List ExecutionEvent) : List UserWait := events.filterMap (·.userWait)

def Token.userWait (t : Token) : UserWait := ⟨t.instanceId, t.id, t.elementId⟩

theorem Token.userWait_of_bare {x t : Token} (h : x.bare = t.bare) : x.userWait = t.userWait := by
  have hid := congrArg Token.instanceId h
  have hinst : x.instanceId = t.instanceId := hid
  rw [Token.userWait, Token.userWait, hinst, id_of_bare h, elementId_of_bare h]

theorem Token.waitsForUser_congr {x t : Token} (hw : x.status = .waiting)
    (hfor : x.waitingFor = t.waitingFor) (h : t.WaitsForUser) : x.WaitsForUser := by
  refine ⟨hw, ?_⟩
  have hwaits := h.2
  unfold Token.waitsFor at hwaits ⊢
  rw [hfor]
  exact hwaits

theorem userWait_eq_none {event : ExecutionEvent} (h : event.isTokenWaiting = false) :
    event.userWait = none := by
  cases event <;> first | rfl | cases h

theorem userWaits_append (events more : List ExecutionEvent) :
    userWaits (events ++ more) = userWaits events ++ userWaits more :=
  List.filterMap_append

/-- Without a token that starts to wait for a user, no event says that there is one. -/
theorem Effect.userWaits_eq {sound timed : Prop} {ctx ctx' : ExecutionContext}
    (e : Effect ⟨sound, False, timed⟩ ctx ctx') : userWaits ctx'.events = userWaits ctx.events := by
  have hsame : ∀ event : ExecutionEvent, event.userWait = none →
      userWaits (ctx.events ++ [event]) = userWaits ctx.events := by
    intro event h
    simp [userWaits, h]
  cases e with
  | emit event h => exact hsame event (userWait_eq_none h)
  | park t condition hw ht =>
    refine hsame _ ?_
    rw [ExecutionEvent.userWait, if_neg hw]
  | _ => rfl

theorem Effects.userWaits_eq {sound timed : Prop} {ctx ctx' : ExecutionContext}
    (h : Effects ⟨sound, False, timed⟩ ctx ctx') :
    userWaits ctx'.events = userWaits ctx.events := by
  induction h with
  | refl => rfl
  | tail _ e ih => exact e.userWaits_eq.trans ih

/-! ## One turn -/

variable {ctx ctx' : ExecutionContext} {t : Token}

theorem processToken_userWaits (hnot : ¬ t.AtUserTask d) (h : processToken d ctx t = .ok ctx') :
    userWaits ctx'.events = userWaits ctx.events := by
  have heffects : Effects ⟨False, False, False⟩ ctx ctx' :=
    processToken_effects hnot ⟨⟨False.elim, False.elim⟩, False.elim, False.elim⟩ h
  exact heffects.userWaits_eq

theorem processToken_userWaits_concat (hat : t.AtUserTask d) (h : processToken d ctx t = .ok ctx') :
    userWaits ctx'.events = userWaits ctx.events ++ [t.userWait] := by
  obtain ⟨e, he, hnot⟩ := hat
  unfold processToken at h
  rw [he] at h
  have h : handleTask d ctx t (.userTask e)
      (.ok (spawnBoundaryTokens d (suspendToken ctx t .userTask) t e.id)) = .ok ctx' := h
  unfold handleTask at h
  split at h
  · rename_i lc hlc hparent
    exact absurd ⟨by rw [hlc]; rfl, hparent⟩ hnot
  · have hready : Ready ⟨False, False, False⟩ (suspendToken ctx t .userTask) t :=
      ⟨⟨False.elim, False.elim⟩, False.elim, False.elim⟩
    have hspawn : Effects ⟨False, False, False⟩ (suspendToken ctx t .userTask) ctx' :=
      Except.ok.inj h ▸ spawnBoundaryTokens_effects hready e.id
    rw [hspawn.userWaits_eq]
    exact userWaits_append _ _

theorem Parks.atUserTask {P : Pool} {e : BpmnFlowElement} {condition : WaitCondition}
    {loopState : Option LoopState} {origins : List Origin} {records : List CompensationRecord}
    (h : Parks d P t e condition loopState origins records)
    (he : d.getElement t.elementId = .ok e) (htype : condition.type = .userTask) :
    t.AtUserTask d := by
  cases h with
  | userTask e h =>
    refine ⟨e, he, fun hwraps => ?_⟩
    rcases h with h | h
    · simp [Token.Wraps, BpmnFlowElement.loopCharacteristics, h] at hwraps
    · exact h hwraps.2
  | catchEvent _ h => exact absurd htype (EventDefinition.catchCondition_ne_userTask h)
  | boundaryEvent _ h => exact absurd htype (BoundaryEventElement.waitCondition_ne_userTask h)
  | _ => cases htype

/-- In a turn, only a token that comes to a user task starts to wait for a user. -/
theorem Turn.waitsForUser {P Q : Pool} {origins : List Origin} {y : Token}
    (h : Turn d P t Q origins) (hy : y ∈ Q.tokens) (hw : y.WaitsForUser) :
    (∃ x ∈ P.tokens, x.status = .waiting ∧ x.bare = y.bare ∧ x.waitingFor = y.waitingFor) ∨
      t.AtUserTask d ∧ t.bare = y.bare := by
  rcases h.waiting hy hw.1 with hold | ⟨e, condition, loopState, records, he, hparks, rfl⟩
  · exact .inl hold
  · refine .inr ⟨hparks.atUserTask he ?_, rfl⟩
    have := hw.2
    simpa [Token.waitsFor] using this

/-! ## A whole call -/

/-- In the course of a call that began with the pool `old` and the next id `n`: the events name the
tokens that have begun to wait for a user, each once. -/
structure ExecutionContext.Notes (n : Nat) (old : Pool) (ctx : ExecutionContext) : Prop where
  since : ctx.pool.Since n old
  once : ((userWaits ctx.events).map (·.tokenId)).Nodup
  known : ∀ w ∈ userWaits ctx.events, n ≤ w.tokenId ∧ w.tokenId ∉ ctx.pool.pending.map (·.id) ∧
    ∃ x ∈ ctx.pool.tokens, x.userWait = w
  noted : ∀ y ∈ ctx.pool.tokens, y.WaitsForUser → y.userWait ∈ userWaits ctx.events ∨
    ∃ x ∈ old.tokens, x.status = .waiting ∧ x.bare = y.bare ∧ x.waitingFor = y.waitingFor

theorem ExecutionContext.Notes.commanded {old : Pool} {n : Nat}
    (hsince : ctx'.pool.Since n old) (hstill : StillWaiting old ctx'.pool)
    (hnone : userWaits ctx'.events = []) : ctx'.Notes n old where
  since := hsince
  once := by
    rw [hnone]
    exact List.nodup_nil
  known w hw := by
    rw [hnone] at hw
    cases hw
  noted y hy hw := .inr (hstill y hy hw.1)

theorem ExecutionContext.Notes.turned {n : Nat} {old : Pool} (hhand : ctx.pool.Coherent [t.erase])
    (h : (ctx.unpop t).Notes n old) (hok : processToken d ctx t = .ok ctx') : ctx'.Notes n old := by
  have hturned := processToken_turned hhand hok
  have hsince := h.since.turned (P := ctx.pool) hhand hturned
  have hgrows := Pool.Grows.turned hhand (le_refl _) hturned
  have hheld : ∀ x, ctx.pool.Holds x → ∃ y ∈ ctx'.pool.tokens, y.userWait = x.userWait := by
    intro x hx
    obtain ⟨y, hy, hbare⟩ := Pool.holds_iff.1 (hturned.holds hhand hx)
    exact ⟨y, hy, Token.userWait_of_bare hbare⟩
  have hknown : ∀ w ∈ userWaits ctx.events, n ≤ w.tokenId ∧ w.tokenId ≠ t.id ∧
      w.tokenId ∉ ctx'.pool.pending.map (·.id) ∧ ∃ x ∈ ctx'.pool.tokens, x.userWait = w := by
    intro w hw
    obtain ⟨hle, hpending, x, hx, rfl⟩ := h.known w hw
    rw [pool_unpop, Pool.push, List.map_cons, List.mem_cons, not_or] at hpending
    exact ⟨hle, hpending.1, hgrows.notPending (hhand.numbered x hx) hpending.2,
      hheld x (Pool.holds_of_mem hx)⟩
  have hnoted : ∀ y ∈ ctx'.pool.tokens, y.WaitsForUser → y.userWait ∈ userWaits ctx.events ∨
      (t.AtUserTask d ∧ y.userWait = t.userWait) ∨
      ∃ x ∈ old.tokens, x.status = .waiting ∧ x.bare = y.bare ∧ x.waitingFor = y.waitingFor := by
    intro y hy hw
    obtain ⟨Q, origins, hturn, hmade⟩ := hturned
    obtain ⟨z, hz, hzw, hbare, hfor⟩ := hmade.stillWaiting y hy hw.1
    have hzuser := Token.waitsForUser_congr hzw hfor hw
    rcases hturn.waitsForUser hz hzuser with ⟨x, hx, hxw, hxbare, hxfor⟩ | ⟨hat, htbare⟩
    · have hxuser := Token.waitsForUser_congr hxw hxfor hzuser
      rcases h.noted x hx hxuser with hmem | ⟨v, hv, hvw, hvbare, hvfor⟩
      · rw [Token.userWait_of_bare (hxbare.trans hbare)] at hmem
        exact .inl hmem
      · exact .inr (.inr ⟨v, hv, hvw, (hvbare.trans hxbare).trans hbare,
          (hvfor.trans hxfor).trans hfor⟩)
    · exact .inr (.inl ⟨hat, (Token.userWait_of_bare (htbare.trans hbare)).symm⟩)
  by_cases hat : t.AtUserTask d
  · have hconcat := processToken_userWaits_concat hat hok
    refine ⟨hsince, ?_, fun w hw => ?_, fun y hy hw => ?_⟩
    · rw [hconcat, List.map_append, List.nodup_append]
      refine ⟨h.once, List.nodup_singleton _, fun i hi j hj => ?_⟩
      obtain ⟨w, hw, rfl⟩ := List.mem_map.1 hi
      rw [List.map_singleton, List.mem_singleton] at hj
      rw [hj]
      exact (hknown w hw).2.1
    · rw [hconcat, List.mem_append, List.mem_singleton] at hw
      rcases hw with hw | rfl
      · obtain ⟨hle, -, hpending, hx⟩ := hknown w hw
        exact ⟨hle, hpending, hx⟩
      · have hholds : ctx.pool.Holds t.erase := hhand.holds List.mem_cons_self
        obtain ⟨hlt, hnot⟩ := hhand.hand_notPending
        exact ⟨h.since.pending t.erase List.mem_cons_self, hgrows.notPending hlt hnot,
          hheld t.erase hholds⟩
    · rw [hconcat, List.mem_append, List.mem_singleton]
      rcases hnoted y hy hw with hmem | ⟨-, heq⟩ | hold
      · exact .inl (.inl hmem)
      · exact .inl (.inr heq)
      · exact .inr hold
  · have hsame := processToken_userWaits hat hok
    refine ⟨hsince, by rw [hsame]; exact h.once, fun w hw => ?_, fun y hy hw => ?_⟩
    · rw [hsame] at hw
      obtain ⟨hle, -, hpending, hx⟩ := hknown w hw
      exact ⟨hle, hpending, hx⟩
    · rw [hsame]
      rcases hnoted y hy hw with hmem | ⟨hat', -⟩ | hold
      · exact .inl hmem
      · exact absurd hat' hat
      · exact .inr hold

/-- What a call says about the tokens that wait for a user when it is over; `old` are the tokens
that were there before, and `n` is the first new id. -/
structure Noted (n : Nat) (old : List Token) (result : EngineResult) : Prop where
  once : ((userWaits result.events).map (·.tokenId)).Nodup
  known : ∀ w ∈ userWaits result.events, n ≤ w.tokenId ∧ ∃ y ∈ result.newState.tokens,
    y.userWait = w
  noted : ∀ y ∈ result.newState.tokens, y.WaitsForUser → y.userWait ∈ userWaits result.events ∨
    ∃ x ∈ old, x.id = y.id ∧ x.WaitsForUser

variable {fuel : Nat} {options : ExecuteOptions} {result : EngineResult}

theorem noted_of_notes {n : Nat} {old : List Token} {P : Pool} {inst : ProcessInstance}
    (hP : P.tokens = old.map Token.erase) (h : ctx.Notes n P)
    (hstate : result.newState = ctx.toState inst) (hevents : result.events = ctx.events) :
    Noted n old result where
  once := by
    rw [hevents]
    exact h.once
  known w hw := by
    rw [hevents] at hw
    obtain ⟨hle, -, x, hx, hxw⟩ := h.known w hw
    obtain ⟨y, hy, rfl⟩ := List.mem_map.1 hx
    exact ⟨hle, y, hstate ▸ hy, hxw⟩
  noted y hy hw := by
    rw [hstate] at hy
    rw [hevents]
    refine (h.noted y.erase (ctx.mem_pool hy) hw).imp_right fun ⟨x, hx, hxw, hbare, hfor⟩ => ?_
    rw [hP] at hx
    obtain ⟨z, hz, rfl⟩ := List.mem_map.1 hx
    have hid : z.erase.id = y.erase.id := Token.id_of_bare hbare
    exact ⟨z, hz, hid, Token.waitsForUser_congr hxw hfor hw⟩

theorem handleCommand_userWaits {command : EngineCommand} (hgoes : command.goesOn = true)
    (h : handleCommand d ctx command = .ok ctx') :
    userWaits ctx'.events = userWaits ctx.events := by
  have heffects : Effects ⟨False, False, False⟩ ctx ctx' :=
    handleCommand_effects hgoes ⟨False.elim, False.elim⟩ h
  exact heffects.userWaits_eq

theorem execute_noted {command : EngineCommand} {state : EngineState} {nextId : Nat}
    (hgoes : command.goesOn = true) (hrest : state.Resting nextId) (hn : nextId ≤ options.firstId)
    (h : execute d fuel command (some state) options = .ok result) :
    Noted options.firstId state.tokens result := by
  have hcoh := hrest.coherent hn
  obtain ⟨ctx, inst, hnotes, -, -, -, hstate, hevents, -⟩ :=
    execute_keeps (I := fun ctx => ctx.Notes options.firstId
      (ExecutionContext.create (some state) options).pool) (C := fun _ => True) hcoh h
      (fun _ _ => trivial)
      (fun after _ hok => by
        have hcommanded := handleCommand_commanded hcoh.numbered hok
        exact .commanded (.commanded hcoh rfl rfl hcommanded) hcommanded.stillWaiting
          (handleCommand_userWaits hgoes hok))
      fun before t after _ hhand hI hok => hI.turned hhand hok
  refine noted_of_notes ?_ hnotes hstate hevents
  rw [ExecutionContext.pool, hrest.tokenMap]

theorem handleStartProcess_userWaits {vars : Option Variables}
    {correlationKey businessKey : Option String}
    (h : handleStartProcess d ctx vars correlationKey businessKey = .ok ctx') :
    userWaits ctx'.events = userWaits ctx.events := by
  unfold handleStartProcess at h
  obtain ⟨element, -, h⟩ := Except.bind_eq_ok_iff.1 h
  rw [← Except.ok.inj h]
  exact (userWaits_append ctx.events _).trans (List.append_nil _)

theorem execute_start_noted {vars : Option Variables} {correlationKey businessKey : Option String}
    (h : execute d fuel (.startProcess vars correlationKey businessKey) none options = .ok result) :
    Noted options.firstId [] result := by
  have hcoh : (ExecutionContext.create none options).pool.Coherent [] := coherent_start _
  obtain ⟨ctx, inst, hnotes, -, -, -, hstate, hevents, -⟩ :=
    execute_keeps (I := fun ctx => ctx.Notes options.firstId (Pool.start options.firstId))
      (C := fun _ => True) hcoh h (fun _ _ => trivial)
      (fun after _ hok => by
        have hcommanded := handleCommand_commanded hcoh.numbered hok
        exact .commanded (.commanded hcoh rfl rfl hcommanded) hcommanded.stillWaiting
          (handleStartProcess_userWaits hok))
      fun before t after _ hhand hI hok => hI.turned hhand hok
  exact noted_of_notes rfl hnotes hstate hevents

/-! ## The token of a completed task -/

/-- The token of this id does not wait. -/
def Pool.Ceased (id : Nat) (P : Pool) : Prop := ∀ y ∈ P.tokens, y.id = id → y.status ≠ .waiting

variable {P Q P' : Pool} {origins : List Origin} {id : Nat}

theorem Pool.Ceased.still (h : P.Ceased id) (hstill : StillWaiting P Q) : Q.Ceased id := by
  intro y hy hid hw
  obtain ⟨x, hx, hxw, hbare, -⟩ := hstill y hy hw
  exact h x hx ((Token.id_of_bare hbare).trans hid) hxw

theorem Pool.ceased_finish (P : Pool) (t : Token) : (P.finish t).Ceased t.id := by
  intro y hy hid hw
  rcases Pool.mem_put hy with rfl | ⟨-, hne⟩
  · cases hw
  · exact hne hid

theorem ChildDone.ceased {c : Token} {e : BpmnFlowElement} {lc : MultiInstanceLoopCharacteristics}
    (hP : P.Coherent []) (hc : c ∈ P.tokens) (hparent : c.parentTokenId.bind P.get? ≠ none)
    (h : ChildDone c e lc P Q origins) : Q.Ceased c.id := by
  have hfinish := P.ceased_finish c
  cases h with
  | orphan hp => exact absurd hp hparent
  | noLoop _ _ _ | wait _ _ _ => exact hfinish
  | next hp _ _ loopState =>
    obtain ⟨-, hlt, -⟩ := hP.of_get?_parent (Pool.holds_of_mem hc) hp
    intro y hy hid
    rcases Pool.mem_put hy with rfl | ⟨hy, -⟩
    · exact absurd hid (Nat.ne_of_lt hlt)
    · exact hfinish y hy hid
  | lastItem _ _ _ | allDone _ _ _ => exact hfinish.still (.closeLoop _ _ _)
  | condition _ _ _ => exact hfinish.still ((StillWaiting.cancelAll _ _).trans (.closeLoop _ _ _))

theorem HandlerDone.ceased {w throwToken : Token} (h : HandlerDone d w throwToken P Q origins) :
    Q.Ceased w.id := by
  have hfinish := P.ceased_finish w
  cases h with
  | wait _ | orphan _ _ _ _ _ => exact hfinish
  | fire _ _ _ _ _ hfire => exact hfinish.still hfire.stillWaiting
  | advance _ _ _ => exact hfinish.still (.finish _ _)

theorem Complete.ceased {w : Token} (hP : P.Coherent []) (hw : w ∈ P.tokens)
    (h : Complete d P w Q origins) : Q.Ceased w.id := by
  have hresume : P.autoResume.Coherent [] := hP.of_eq rfl rfl rfl
  cases h with
  | child _ hrole h => exact h.ceased hresume hw (Pool.parent_of_role hrole)
  | handler _ _ h => exact h.ceased
  | plain _ _ _ => exact Pool.ceased_finish _ w

theorem Turned.ceased {t : Token} (hP : P.Ceased id) (hne : t.id ≠ id) (h : Turned d P t P') :
    P'.Ceased id := by
  obtain ⟨Q, origins, hturn, hmade⟩ := h
  have hQ : Q.Ceased id := by
    intro y hy hid hw
    rcases hturn.waiting hy hw with ⟨x, hx, hxw, hbare, -⟩ | ⟨_, _, _, _, -, -, rfl⟩
    · exact hP x hx ((Token.id_of_bare hbare).trans hid) hxw
    · exact hne hid
  exact hQ.still hmade.stillWaiting

/-- A token that the handler of the command has made cease to wait does not wait when the call is
over. -/
theorem execute_ceases_of {state : EngineState} {command : EngineCommand}
    (hcoh : (ExecutionContext.create (some state) options).pool.Coherent [])
    (hlt : id < options.firstId)
    (h : execute d fuel command (some state) options = .ok result)
    (hcommand : ∀ after,
      handleCommand d (ExecutionContext.create (some state) options) command = .ok after →
        after.pool.Ceased id) :
    ∀ y ∈ result.newState.tokens, y.id = id → y.status ≠ .waiting := by
  obtain ⟨ctx, inst, ⟨-, hceased⟩, -, -, -, hstate, -, -⟩ :=
    execute_keeps (I := fun ctx => ctx.pool.Since options.firstId
      (ExecutionContext.create (some state) options).pool ∧ ctx.pool.Ceased id) (C := fun _ => True)
      hcoh h (fun _ _ => trivial)
      (fun after _ hok =>
        ⟨.commanded hcoh rfl rfl (handleCommand_commanded hcoh.numbered hok), hcommand _ hok⟩)
      (fun before t after _ hhand ⟨hsince, hceased⟩ hok => by
        have hturned := processToken_turned hhand hok
        have hge : options.firstId ≤ t.id := hsince.pending t.erase List.mem_cons_self
        refine ⟨hsince.turned (P := before.pool) hhand hturned, ?_⟩
        exact hturned.ceased (P := before.pool) hceased (by show t.id ≠ id; omega))
  intro y hy hid
  rw [hstate] at hy
  exact hceased y.erase (ctx.mem_pool hy) hid

theorem execute_ceases {state : EngineState} {command : EngineCommand}
    (hcoh : (ExecutionContext.create (some state) options).pool.Coherent [])
    (hlt : id < options.firstId)
    (h : execute d fuel command (some state) options = .ok result)
    (hcommand : ∀ after,
      Commanded d (ExecutionContext.create (some state) options).pool command after →
        after.Ceased id) :
    ∀ y ∈ result.newState.tokens, y.id = id → y.status ≠ .waiting :=
  execute_ceases_of hcoh hlt h fun _ hok => hcommand _ (handleCommand_commanded hcoh.numbered hok)

/-- When the user task of a token has been completed, the token waits no longer. -/
theorem execute_ceased {state : EngineState} {nextId : Nat} {completedBy : String}
    {vars : Option Variables} (hrest : state.Resting nextId) (hn : nextId ≤ options.firstId)
    (h : execute d fuel (.completeUserTask id completedBy vars) (some state) options = .ok result) :
    ∀ y ∈ result.newState.tokens, y.id = id → y.status ≠ .waiting := by
  have hcoh := hrest.coherent hn
  have hlt : id < options.firstId := by
    unfold execute at h
    obtain ⟨mid, hmid, -⟩ := Except.bind_eq_ok_iff.1 h
    cases handleCommand_commanded hcoh.numbered hmid with
    | deed hdeed hmade =>
      cases hdeed with
      | completeUserTask _ _ hw _ _ => exact hcoh.numbered _ hw
  refine execute_ceases hcoh hlt h fun after hcommanded => ?_
  cases hcommanded with
  | deed hdeed hmade =>
    cases hdeed with
    | completeUserTask _ _ hw _ hcomplete =>
      exact (hcomplete.ceased hcoh hw).still hmade.stillWaiting

end NexusWorkflow
