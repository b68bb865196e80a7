import NexusWorkflow.Game.Fate
import NexusWorkflow.Proof.Containment
import NexusWorkflow.Run.Diagram

/-!
# What waits at a sub-process

Before it completes a sub-process, the engine looks for live tokens that carry its id, which are the
tokens of one level only.  A token further inside is reached through the token that waits at the
nested sub-process (`Pool.Hosted`), as long as no step takes that one away from the tokens inside:
an interrupting boundary event, a cancel end event around it and a command on the waiting token
itself do.
-/

namespace NexusWorkflow

open ExecutionContext

variable {d : ProcessDefinition} {P Q P' : Pool} {origins : List Origin} {ends : Token → Prop}

/-! ## Depth -/

mutual

theorem BpmnFlowElement.levelInside_ne {e : BpmnFlowElement} {id s : String} (hid : e.id ≠ id)
    (h : e.levelInside id = some (some s)) : s ≠ id := by
  cases e with
  | subProcess e t elements flows start =>
    rcases levelOf_ne (l := elements) h with hs | hs
    · exact Option.some.inj hs ▸ hid
    · exact hs
  | _ => simp [BpmnFlowElement.levelInside] at h

theorem levelOf_ne {level : Option String} {l : List BpmnFlowElement} {id s : String}
    (h : levelOf level l id = some (some s)) : level = some s ∨ s ≠ id := by
  cases l with
  | nil => simp [levelOf] at h
  | cons e rest =>
    rw [levelOf] at h
    split_ifs at h with hid
    · exact .inl (Option.some.inj h)
    · rcases Option.or_eq_some_iff.1 h with h | ⟨-, h⟩
      · exact .inr (BpmnFlowElement.levelInside_ne hid h)
      · exact levelOf_ne h

end

namespace ProcessDefinition

/-- No element lies inside itself. -/
theorem enclosing_ne_self (id : String) : d.enclosing id ≠ some id := by
  intro h
  unfold enclosing at h
  rw [Option.join_eq_some_iff] at h
  exact (levelOf_ne h).elim nofun fun hne => hne rfl

/-- The element lies inside the sub-process, at any depth. -/
inductive Within (d : ProcessDefinition) (s : String) : String → Prop
  | direct {id : String} (h : d.enclosing id = some s) : d.Within s id
  | deeper {id inner : String} (h : d.enclosing id = some inner) (hinner : d.Within s inner) :
      d.Within s id

end ProcessDefinition

/-! ## Hosts -/

/-- A token waits at the sub-process. -/
def Pool.HasHost (P : Pool) (s : String) : Prop :=
  ∃ x ∈ P.tokens, x.elementId = s ∧ x.status = .waiting

/-- If the token is inside a sub-process, a token waits there. -/
def Token.HousedIn (P : Pool) (t : Token) : Prop := ∀ s ∈ t.subProcessInstanceId, P.HasHost s

def Pool.Hosted (P : Pool) : Prop := ∀ x ∈ P.tokens, x.live → x.HousedIn P

/-- No token at any depth of a sub-process is live, if none on its own level is. -/
theorem Pool.Hosted.not_live (h : P.Hosted) (hP : P.Contained d) {s : String}
    (hbusy : ¬ P.Busy s) {x : Token} (hx : x ∈ P.tokens) (hwithin : d.Within s x.elementId) :
    x.live = false := by
  obtain ⟨id, hid⟩ : ∃ id, x.elementId = id := ⟨_, rfl⟩
  rw [hid] at hwithin
  induction hwithin generalizing x with
  | direct hs =>
    refine Bool.eq_false_iff.2 fun hlive => hbusy ⟨x, hx, ?_, hlive⟩
    exact (hP x hx).trans (hid ▸ hs)
  | deeper hinner _ ih =>
    refine Bool.eq_false_iff.2 fun hlive => ?_
    have htag : x.subProcessInstanceId = some _ := (hP x hx).trans (hid ▸ hinner)
    obtain ⟨host, hhost, hplace, hwaiting⟩ := h x hx hlive _ htag
    have hdead := ih hhost hplace
    rw [Token.live_of_waiting hwaiting] at hdead
    cases hdead

/-! ## The condition on a step -/

/-- A token that waits at a sub-process goes only with all that is live inside. -/
def Pool.FreesHosts (P : Pool) (touches ends : Token → Prop) : Prop :=
  ∀ x ∈ P.tokens, x.status = .waiting → touches x →
    ∀ y ∈ P.tokens, y.live → y.subProcessInstanceId = some x.elementId → ends y

instance (touches ends : Token → Prop) [DecidablePred touches] [DecidablePred ends] :
    Decidable (P.FreesHosts touches ends) := by
  unfold Pool.FreesHosts
  infer_instance

/-- What a cancel or terminate end event cancels. -/
def CancelledBy (e : EventElement) (t y : Token) : Prop :=
  e.eventDefinition.type = .terminate ∨ e.eventDefinition.type = .cancel ∧
    ∃ s ∈ truthy t.subProcessInstanceId, y.subProcessInstanceId = some s

instance (e : EventElement) (t y : Token) : Decidable (CancelledBy e t y) := by
  unfold CancelledBy
  infer_instance

/-- The token ends in a turn: at an end event, or with what the end event cancels. -/
def EndsInTurn (d : ProcessDefinition) (t y : Token) : Prop :=
  match d.getElement t.elementId with
  | .ok (.endEvent e) => y.id = t.id ∨ CancelledBy e t y
  | _ => False

instance (t y : Token) : Decidable (EndsInTurn d t y) := by
  dsimp only [EndsInTurn]
  induction d.getElement t.elementId using Except.casesOn with
  | error => exact inferInstanceAs (Decidable False)
  | ok e => induction e using BpmnFlowElement.casesOn <;> dsimp only <;> infer_instance

/-- The token that has started this one as a compensation handler. -/
def Pool.throwToken (d : ProcessDefinition) (P : Pool) (w : Token) : Option Token :=
  match d.getElement w.elementId with
  | .error _ => none
  | .ok e =>
      match P.role w e with
      | .handler throwToken => some throwToken
      | _ => none

/-- The token ends with a command: with the instance, or as the compensation handler that is
completed. -/
def Pool.EndsInCommand (d : ProcessDefinition) (P : Pool) (command : EngineCommand) (y : Token) :
    Prop :=
  match command with
  | .completeServiceTask id _ | .completeUserTask id _ _ => y.id = id ∧ P.throwToken d y ≠ none
  | .cancelInstance => True
  | _ => False

instance (command : EngineCommand) (y : Token) : Decidable (P.EndsInCommand d command y) := by
  induction command using EngineCommand.casesOn <;> dsimp only [Pool.EndsInCommand] <;>
    infer_instance

/-- The event that the handler answers to still waits, unless it is a cancel end event. -/
def Pool.AnswersLive (d : ProcessDefinition) (P : Pool) (w : Token) : Prop :=
  ∀ throwToken ∈ P.throwToken d w, throwToken.live ∨
    ∃ e, d.getElement throwToken.elementId = .ok e ∧ e.isCancelEnd

instance (w : Token) : Decidable (P.AnswersLive d w) := by
  unfold Pool.AnswersLive
  have (id : String) : Decidable (∃ e, d.getElement id = .ok e ∧ e.isCancelEnd) :=
    match h : d.getElement id with
    | .ok e => decidable_of_iff (e.isCancelEnd = true) (by simp)
    | .error _ => isFalse (by simp)
  infer_instance

/-- The step takes no token away that waits at a sub-process while a token inside goes on, and the
token taken from the queue was not cancelled there. -/
def Step.KeepsHosts (d : ProcessDefinition) (st : Step) : Prop :=
  match st.action with
  | .command command =>
    st.before.pool.FreesHosts (st.before.pool.TouchesCommand d · command)
        (st.before.pool.EndsInCommand d command) ∧
      command.Completing (Pool.AnswersLive d) st.before.pool
  | .process t =>
    (∃ x ∈ st.before.pool.tokens, x.id = t.id ∧ x.status = .active) ∧
      st.before.pool.FreesHosts (st.before.pool.TouchesTurn d t.erase) (EndsInTurn d t.erase)

instance (st : Step) : Decidable (st.KeepsHosts d) := by
  unfold Step.KeepsHosts
  rcases st.action with _ | _ <;> infer_instance

/-! ## Hosts stay -/

/-- What is live in `P` and does not end has its hosts in `Q`. -/
def Supports (ends : Token → Prop) (P Q : Pool) : Prop :=
  ∀ x ∈ P.tokens, x.live → ¬ ends x → x.HousedIn Q

theorem Pool.Hosted.supports {touches : Token → Prop} (h : P.Hosted)
    (hfree : P.FreesHosts touches ends) (hstays : ∀ x ∈ P.tokens, ¬ touches x → x ∈ Q.tokens) :
    Supports ends P Q := by
  intro y hy hlive hends s hs
  obtain ⟨x, hx, hid, hwaiting⟩ := h y hy hlive s hs
  have huntouched : ¬ touches x := fun htouch =>
    hends (hfree x hx hwaiting htouch y hy hlive (hid.symm ▸ hs))
  exact ⟨x, hstays x hx huntouched, hid, hwaiting⟩

/-- The live tokens of `Q` are those of `P` that do not end. -/
def Outlive (ends : Token → Prop) (P Q : Pool) : Prop :=
  ∀ y ∈ Q.tokens, y.live → ∃ x ∈ P.tokens, x.bare = y.bare ∧ x.live ∧ ¬ ends x

theorem Supports.hosted (h : Supports ends P Q) (hlive : Outlive ends P Q) : Q.Hosted := by
  intro y hy hylive s hs
  obtain ⟨x, hx, hbare, hxlive, hends⟩ := hlive y hy hylive
  exact h x hx hxlive hends s ((Token.tag_of_bare hbare).trans hs)

/-! ### New tokens -/

/-- The new tokens find tokens at the sub-processes that they are inside of. -/
def Housed (P : Pool) (origins : List Origin) : Prop :=
  ∀ o ∈ origins, ∀ s ∈ o.tag, P.HasHost s

theorem Pool.HasHost.spawned {α : Type} {R : α → Token → Prop} {items : List α} {s : String}
    (h : Q.HasHost s) (hmade : Spawned R items Q P') : P'.HasHost s := by
  obtain ⟨x, hx, hrest⟩ := h
  exact ⟨x, hmade.stays hx, hrest⟩

theorem Pool.Hosted.spawned (h : Q.Hosted) (horigins : Housed Q origins)
    (hmade : Spawned (Made d) origins Q P') : P'.Hosted := by
  intro x hx hlive s hs
  refine Pool.HasHost.spawned ?_ hmade
  obtain ⟨news, n, hR, -, rfl⟩ := hmade
  rcases List.mem_append.1 hx with hx | hx
  · exact h x hx hlive s hs
  · obtain ⟨o, ho, hox⟩ := exists_of_forall₂_right hR hx
    exact horigins o ho s (hox.tag ▸ hs)

theorem housed_nil : Housed Q [] := by simp [Housed]

theorem eq_some_of_truthy {tag : Option String} {s : String} (h : truthy tag = some s) :
    tag = some s := (Option.filter_eq_some_iff.1 h).1

theorem housed_onFlows {src : Token} (h : src.HousedIn Q) (flows : List String) :
    Housed Q (onFlows src flows) := by
  intro o ho s hs
  obtain ⟨flowId, -, rfl⟩ := List.mem_map.1 ho
  exact h s (eq_some_of_truthy hs)

/-- On the top level no host is needed. -/
theorem housedIn_of_none {t : Token} (h : t.subProcessInstanceId = none) : t.HousedIn Q := by
  intro s hs
  rw [h] at hs
  cases hs

/-! ## The rules -/

theorem Fate.live {R : Token → Prop} {x y : Token} (h : Fate R x y) (hy : y.live) : x.live := by
  rcases h.status with ⟨hs, -⟩ | ⟨hs, -⟩ | ⟨hs, -⟩
  · simpa [Token.live, hs] using hy
  · simp [Token.live, hs] at hy
  · simp [Token.live, hs] at hy

theorem ofPlace_true : OfPlace fun _ => True := fun _ _ _ => id

/-- A live token after the completion of `t` is another one. -/
theorem mem_of_finish {t y : Token} (hy : y ∈ (P.finish t).tokens) (hlive : y.live) :
    y ∈ P.tokens ∧ y.id ≠ t.id := by
  rcases Pool.mem_put hy with rfl | hy
  · cases hlive
  · exact hy

/-- What is live after a cancel end event lies outside of its transaction. -/
theorem mem_of_clearScope {s : String} {t y : Token} (ht : ∀ x ∈ P.tokens, x.live → x.id ≠ t.id)
    (hy : y ∈ (P.clearScope s t).tokens) (hlive : y.live) :
    y ∈ P.tokens ∧ y.subProcessInstanceId ≠ some s := by
  rcases Pool.mem_cancelAll hy with ⟨hy, hspared⟩ | ⟨x, -, -, rfl⟩
  · refine ⟨hy, fun htag => ?_⟩
    exact of_decide_eq_false hspared ⟨ht y hy hlive, htag, hlive⟩
  · cases hlive

theorem FireCancel.housed {s : String} {outer : Token} {R : Pool}
    (hsup : ∀ w ∈ P.tokens, w.status = .waiting → w.HousedIn R)
    (h : FireCancel d s outer P Q origins) : Housed R origins := by
  cases h with
  | none _ | unarmed _ _ => exact housed_nil
  | fire _ hw =>
    obtain ⟨hm, -, hwaiting⟩ := Pool.waitingAt_eq_some hw
    exact housed_onFlows (hsup _ hm hwaiting) _

section EndEvent

variable {t : Token} {e : EventElement}

theorem TxCancel.outlive {s : String} (ht : ∀ x ∈ P.tokens, x.live → x.id ≠ t.id)
    (h : TxCancel d s t P Q origins) :
    Outlive (fun x => x.subProcessInstanceId = some s) P Q := by
  have hclear : ∀ y ∈ (P.clearScope s t).tokens, y.live →
      y ∈ P.tokens ∧ y.subProcessInstanceId ≠ some s := fun y => mem_of_clearScope ht
  cases h with
  | compensate _ | orphan _ _ =>
    intro y hy hlive
    obtain ⟨hmem, htag⟩ := hclear y hy hlive
    exact ⟨y, hmem, rfl, hlive, htag⟩
  | fire _ houter hfire =>
    intro y hy hlive
    obtain ⟨x, hx, hfate⟩ := hfire.fates ofPlace_true (fun _ _ => trivial) houter y hy
    obtain ⟨hmem, htag⟩ := hclear x hx (hfate.live hlive)
    exact ⟨x, hmem, hfate.bare, hfate.live hlive, htag⟩

theorem Ends.outlive (ht : ∀ x ∈ P.tokens, x.live → x.id ≠ t.id) (h : Ends d t P e Q origins) :
    Outlive (CancelledBy e t) P Q := by
  have hfates : ∀ {Q}, Fates (fun _ => True) P Q → e.eventDefinition.type ≠ .cancel →
      e.eventDefinition.type ≠ .terminate → Outlive (CancelledBy e t) P Q := by
    intro Q hfates hcancel hterminate y hy hlive
    obtain ⟨x, hx, hfate⟩ := hfates y hy
    exact ⟨x, hx, hfate.bare, hfate.live hlive, fun hends =>
      hends.elim hterminate fun h => hcancel h.1⟩
  cases h with
  | cancelTop he htag =>
    refine fun y hy hlive => ⟨y, hy, rfl, hlive, ?_⟩
    rintro (hterminate | ⟨-, s, hs, -⟩)
    · rw [he] at hterminate
      cases hterminate
    · rw [htag] at hs
      cases hs
  | cancel he htag h =>
    intro y hy hlive
    obtain ⟨x, hx, hbare, hxlive, hout⟩ := h.outlive ht y hy hlive
    refine ⟨x, hx, hbare, hxlive, ?_⟩
    rintro (hterminate | ⟨-, s, hs, hin⟩)
    · rw [he] at hterminate
      cases hterminate
    · rw [htag] at hs
      cases hs
      exact hout hin
  | terminate _ =>
    intro y hy hlive
    rcases Pool.mem_cancelAll hy with ⟨hy, hspared⟩ | ⟨x, -, -, rfl⟩
    · exact absurd ⟨ht y hy hlive, hlive⟩ (of_decide_eq_false hspared)
    · cases hlive
  | inner hcancel hterminate _ h =>
    exact hfates (h.fates ofPlace_true fun _ _ => trivial) hcancel hterminate
  | last hcancel hterminate _ _ _ => exact hfates ((Fates.refl P).of_eq rfl) hcancel hterminate
  | more hcancel hterminate _ _ => exact hfates (.refl P) hcancel hterminate

/-- The handlers that a cancel end event starts are in its transaction, where a token waits. -/
theorem Ends.housed (ht : ∀ x ∈ P.tokens, x.live → x.id ≠ t.id)
    (hsup : Supports (CancelledBy e t) P Q)
    (hhost : ∀ s ∈ truthy t.subProcessInstanceId, (P.clearScope s t).HasHost s)
    (h : Ends d t P e Q origins) : Housed Q origins := by
  cases h with
  | cancelTop _ _ | terminate _ | last _ _ _ _ _ | more _ _ _ _ => exact housed_nil
  | cancel he htag h =>
    rename_i s
    cases h with
    | compensate _ =>
      intro o ho s' hs'
      obtain ⟨r, -, hr⟩ := List.mem_filterMap.1 ho
      obtain ⟨x, -, rfl⟩ := Option.map_eq_some_iff.1 hr
      cases hs'
      exact hhost s htag
    | orphan _ _ => exact housed_nil
    | fire _ _ hfire =>
      refine hfire.housed fun w hw hwaiting => ?_
      have hlive := Token.live_of_waiting hwaiting
      obtain ⟨hmem, hout⟩ := mem_of_clearScope ht hw hlive
      refine hsup w hmem hlive ?_
      rintro (hterminate | ⟨-, s', hs', hin⟩)
      · rw [he] at hterminate
        cases hterminate
      · rw [htag] at hs'
        cases hs'
        exact hout hin
  | inner hcancel hterminate _ h =>
    cases h with
    | busy _ | orphan _ _ => exact housed_nil
    | complete _ houter _ =>
      obtain ⟨hmem, -, hwaiting⟩ := Pool.waitingAt_eq_some houter
      refine housed_onFlows (hsup _ hmem (Token.live_of_waiting hwaiting) fun hends => ?_) _
      exact hends.elim hterminate fun h => hcancel h.1

end EndEvent

/-- A child completes on the top level. -/
theorem ChildDone.housed {c : Token} {e : BpmnFlowElement} {lc : MultiInstanceLoopCharacteristics}
    (hparent : ∀ p, c.parentTokenId.bind P.get? = some p → p.subProcessInstanceId = none)
    (R : Pool) (h : ChildDone c e lc P Q origins) : Housed R origins := by
  cases h with
  | orphan _ | noLoop _ _ _ | wait _ _ _ => exact housed_nil
  | next _ _ _ _ =>
    intro o ho s hs
    rw [List.mem_singleton.1 ho] at hs
    cases hs
  | lastItem hp _ _ | condition hp _ _ | allDone hp _ _ =>
    exact housed_onFlows (housedIn_of_none (hparent _ hp)) _

theorem HandlerDone.housed {w throwToken : Token} {R : Pool}
    (hsup : ∀ x ∈ P.tokens, x.live → x.id ≠ w.id → x.HousedIn R)
    (hth : throwToken ∈ P.tokens) (hne : throwToken.id ≠ w.id)
    (hanswers : throwToken.live ∨ ∃ e, d.getElement throwToken.elementId = .ok e ∧ e.isCancelEnd)
    (h : HandlerDone d w throwToken P Q origins) : Housed R origins := by
  cases h with
  | wait _ | orphan _ _ _ _ _ => exact housed_nil
  | fire _ _ _ _ _ hfire =>
    refine hfire.housed fun x hx hwaiting => ?_
    have hlive := Token.live_of_waiting hwaiting
    obtain ⟨hmem, hid⟩ := mem_of_finish hx hlive
    exact hsup x hmem hlive hid
  | advance _ he hc =>
    rcases hanswers with hlive | ⟨e', he', hend⟩
    · exact housed_onFlows (hsup _ hth hlive hne) _
    · cases he.symm.trans he'
      have htag := hc.resolve_left (by simp [hend])
      intro o ho s hs
      obtain ⟨flowId, -, rfl⟩ := List.mem_map.1 ho
      rw [Origin.tag, htag] at hs
      cases hs

/-! ### Turns -/

section Turn

variable {t : Token}

theorem not_endsInTurn {e : BpmnFlowElement} (he : d.getElement t.elementId = .ok e)
    (hne : ∀ x, e ≠ .endEvent x) (y : Token) : ¬ EndsInTurn d t y := by
  unfold EndsInTurn
  rw [he]
  split
  · rename_i heq
    exact absurd (Except.ok.inj heq) (hne _)
  · exact id

theorem Exits.ne_endEvent {joins joins' : KeyedMap GatewayJoinState.gatewayId}
    {e : BpmnFlowElement} {flows : List String} (h : Exits d joins t e flows joins')
    (x : EventElement) : e ≠ .endEvent x := by
  rintro rfl
  cases h with
  | emptyLoop _ hloop _ => cases hloop

theorem Parks.ne_endEvent {e : BpmnFlowElement} {condition : WaitCondition}
    {loopState : Option LoopState} {records : List CompensationRecord}
    (h : Parks d P t e condition loopState origins records) (x : EventElement) :
    e ≠ .endEvent x := by
  rintro rfl
  cases h with
  | sequential _ hloop _ _ _ | parallel _ hloop _ _ _ => cases hloop

theorem Turn.outlive (hP : P.Coherent [t]) (ht : t ∈ P.tokens) (h : Turn d P t Q origins) :
    Outlive (EndsInTurn d t) P Q := by
  cases h with
  | pass he hexit _ =>
    intro y hy hlive
    exact ⟨y, (mem_of_finish hy hlive).1, rfl, hlive, not_endsInTurn he hexit.ne_endEvent y⟩
  | park he hpark =>
    intro y hy hlive
    rcases Pool.mem_put hy with rfl | ⟨hy, -⟩
    · have hactive : t.live := (Token.live_iff _).2 (.inl (hP.inFlight t List.mem_cons_self).1)
      exact ⟨t, ht, rfl, hactive, not_endsInTurn he hpark.ne_endEvent t⟩
    · exact ⟨y, hy, rfl, hlive, not_endsInTurn he hpark.ne_endEvent y⟩
  | branch he _ _ =>
    intro y hy hlive
    exact ⟨y, (mem_of_finish hy hlive).1, rfl, hlive, not_endsInTurn he nofun y⟩
  | ends he h =>
    intro y hy hlive
    obtain ⟨x, hx, hbare, hxlive, hspared⟩ :=
      h.outlive (fun x hx hxlive => (mem_of_finish hx hxlive).2) y hy hlive
    obtain ⟨hmem, hid⟩ := mem_of_finish hx hxlive
    refine ⟨x, hmem, hbare, hxlive, fun hends => ?_⟩
    unfold EndsInTurn at hends
    rw [he] at hends
    exact hends.elim hid hspared
  | child he _ _ h =>
    intro y hy hlive
    obtain ⟨x, hx, hfate⟩ := h.fates ofPlace_true trivial (fun _ _ => trivial) hP.nodup
      (Pool.holds_of_mem ht) y hy
    exact ⟨x, hx, hfate.bare, hfate.live hlive, not_endsInTurn he nofun x⟩

theorem Parks.housed {e : BpmnFlowElement} {condition : WaitCondition}
    {loopState : Option LoopState} {records : List CompensationRecord} {R : Pool}
    (ht : t.HousedIn R) (hself : R.HasHost t.elementId)
    (h : Parks d P t e condition loopState origins records) : Housed R origins := by
  have harms : ∀ elementId, Housed R ((d.armedBoundaries elementId).map (.boundary t)) := by
    intro elementId o ho s hs
    obtain ⟨b, -, rfl⟩ := List.mem_map.1 ho
    exact ht s (eq_some_of_truthy hs)
  cases h with
  | serviceTask _ _ | userTask _ _ => exact harms _
  | scriptTask _ _ | catchEvent _ _ | boundaryEvent _ _ => exact housed_nil
  | sequential _ _ _ _ _ =>
    intro o ho s hs
    rw [List.mem_singleton.1 ho] at hs
    cases hs
  | parallel _ _ _ _ _ =>
    intro o ho s hs
    rw [(List.mem_replicate.1 ho).2] at hs
    cases hs
  | subProcess e isTransaction elements flows startEventId =>
    intro o ho s hs
    rcases List.mem_append.1 ho with ho | ho
    · split_ifs at ho
      · exact harms _ o ho s hs
      · cases ho
    · rw [List.mem_singleton.1 ho] at hs
      cases hs
      exact hself
  | throwEvent _ _ _ =>
    intro o ho s hs
    obtain ⟨r, -, hr⟩ := List.mem_filterMap.1 ho
    obtain ⟨x, -, rfl⟩ := Option.map_eq_some_iff.1 hr
    cases hs

theorem Turn.housed (hP : P.Coherent [t]) (hcontained : P.Contained d)
    (hhosted : P.Hosted) (ht : t ∈ P.tokens)
    (hlevel : ∀ e, d.getElement t.elementId = .ok e → P.KeepsLevel d t e)
    (hsup : Supports (EndsInTurn d t) P Q) (h : Turn d P t Q origins) : Housed Q origins := by
  have hactive := (hP.inFlight t List.mem_cons_self).1
  have hlive : t.live := (Token.live_iff _).2 (.inl hactive)
  cases h with
  | pass he hexit _ =>
    exact housed_onFlows (hsup t ht hlive (not_endsInTurn he hexit.ne_endEvent t)) _
  | @park e he condition loopState _ records hpark =>
    refine hpark.housed (hsup t ht hlive (not_endsInTurn he hpark.ne_endEvent t)) ?_
    exact ⟨{ t with status := .waiting, waitingFor := some condition, loopState },
      List.mem_map.2 ⟨t, ht, by simp [Pool.update]⟩, rfl, rfl⟩
  | branch _ _ _ =>
    intro o ho s hs
    obtain ⟨flow, -, rfl⟩ := List.mem_map.1 ho
    cases hs
  | @ends e he _ _ h =>
    refine h.housed (fun x hx hxlive => (mem_of_finish hx hxlive).2) (fun x hx hxlive hspared => ?_)
      fun s hs => ?_
    · obtain ⟨hmem, hid⟩ := mem_of_finish hx hxlive
      refine hsup x hmem hxlive fun hends => ?_
      unfold EndsInTurn at hends
      rw [he] at hends
      exact hends.elim hid hspared
    · -- the token that waits at the transaction does not lie inside of it
      obtain ⟨x, hx, hplace, hwaiting⟩ := hhosted t ht hlive s (eq_some_of_truthy hs)
      have hid : x.id ≠ t.id := by
        intro hid
        rw [Pool.eq_of_id hP.nodup hx ht hid, hactive] at hwaiting
        cases hwaiting
      refine ⟨x, Pool.mem_clearScope (Pool.mem_finish_of_ne hx hid) fun hinside => ?_, hplace,
        hwaiting⟩
      have htag : x.subProcessInstanceId = d.enclosing x.elementId := hcontained x hx
      rw [htag, hplace] at hinside
      exact ProcessDefinition.enclosing_ne_self s hinside.2.1
  | @child e he lc hlc _ _ _ h =>
    refine h.housed (fun p hp => ?_) Q
    have hloop : (BpmnFlowElement.manualTask e).loopCharacteristics.isSome := by
      simp [BpmnFlowElement.loopCharacteristics, hlc]
    have htop : d.enclosing p.elementId = none := (hlevel _ he).parent hloop rfl p hp
    have hscope : p.InScope d := hcontained.holds (Pool.holds_of_get? hp)
    exact hscope.trans htop

theorem Turned.hosted (hP : P.Coherent [t]) (hcontained : P.Contained d)
    (hhosted : P.Hosted) (hactive : ∃ x ∈ P.tokens, x.id = t.id ∧ x.status = .active)
    (hfree : P.FreesHosts (P.TouchesTurn d t) (EndsInTurn d t))
    (hlevel : ∀ e, d.getElement t.elementId = .ok e → P.KeepsLevel d t e)
    (h : Turned d P t P') : P'.Hosted := by
  obtain ⟨Q, origins, hturn, hmade⟩ := h
  have ht : t ∈ P.tokens := hP.mem_of_active hactive
  have hsup : Supports (EndsInTurn d t) P Q :=
    hhosted.supports hfree fun x hx hnot => hturn.stays hx hnot
  exact (hsup.hosted (hturn.outlive hP ht)).spawned
    (hturn.housed hP hcontained hhosted ht hlevel hsup) hmade

end Turn

/-! ### Commands -/

theorem Pool.throwToken_eq_some {w throwToken : Token} {e : BpmnFlowElement}
    (he : d.getElement w.elementId = .ok e) (hrole : P.role w e = .handler throwToken) :
    P.throwToken d w = some throwToken := by
  simp [Pool.throwToken, he, hrole]

section Complete

variable {w : Token}

/-- A compensation handler that is completed ends; other tokens leave their hosts alone. -/
theorem Complete.outlive (hP : P.Coherent []) (hw : w ∈ P.tokens)
    (h : Complete d P w Q origins) :
    Outlive (fun x => x.id = w.id ∧ P.throwToken d x ≠ none) P Q := by
  intro y hy hlive
  obtain ⟨x, hx, hfate⟩ := h.fates hP.nodup (Pool.holds_of_mem hw) y hy
  refine ⟨x, hx, hfate.bare, hfate.live hlive, fun ⟨hid, hhandler⟩ => ?_⟩
  obtain rfl : x = w := Pool.eq_of_id hP.nodup hx hw hid
  have hnot : ∀ {e : BpmnFlowElement}, d.getElement x.elementId = .ok e →
      (∀ throwToken, P.role x e ≠ .handler throwToken) → False := by
    intro e he hrole
    apply hhandler
    unfold Pool.throwToken
    simp only [he]
  cases h with
  | child he hrole _ => exact hnot he fun _ hhandler => by simp [hrole] at hhandler
  | plain he hrole _ => exact hnot he fun _ hhandler => by simp [hrole] at hhandler
  | @handler e he throwToken hrole _ _ hdone =>
    have hparent := Pool.holds_of_role hrole
    obtain ⟨-, hlt, -⟩ := hP.of_get?_parent (Pool.holds_of_mem hw) hparent
    have hfinished : { x with status := .completed } ∈ Q.tokens := by
      have hself : { x with status := .completed } ∈ (P.autoResume.finish x).tokens :=
        Pool.mem_finish hw
      have hnd : (P.autoResume.finish x).ids.Nodup :=
        (Frame.finish (P := P.autoResume) hP.nodup (Pool.holds_of_mem hw)).nodup hP.nodup
      cases hdone with
      | wait _ | orphan _ _ _ _ _ => exact hself
      | fire _ _ _ _ houter hfire => exact hfire.keeps hnd hself (.inl rfl) houter
      | advance _ _ _ => exact Pool.mem_finish_of_ne hself (by simp; omega)
    have hQ : Q.ids.Nodup :=
      ((Complete.handler he hrole hdone).frame hP.nodup (Pool.holds_of_mem hw)).nodup hP.nodup
    have heq := Pool.eq_of_id hQ hy hfinished (Token.id_of_bare hfate.bare).symm
    rw [heq] at hlive
    cases hlive

theorem Complete.housed {R : Pool} (hP : P.Coherent []) (hcontained : P.Contained d)
    (hw : w ∈ P.tokens) (hwaiting : w.status = .waiting) (htop : P.CompletesOnTop d w)
    (hanswers : P.AnswersLive d w)
    (hsup : Supports (fun x => x.id = w.id ∧ P.throwToken d x ≠ none) P R)
    (h : Complete d P w Q origins) : Housed R origins := by
  cases h with
  | @child e he lc hrole _ _ h =>
    refine h.housed (fun p hp => ?_) R
    simp only [Pool.CompletesOnTop, he, hrole] at htop
    have hscope : w.InScope d := hcontained w hw
    have hparent : p.InScope d := hcontained.holds (Pool.holds_of_get? hp)
    unfold Token.InScope at hscope hparent
    rw [hparent, Pool.parent_of_role_child hrole hp, ← hscope, htop]
  | @handler e he throwToken hrole _ _ h =>
    have hparent := Pool.holds_of_role hrole
    obtain ⟨hmem, hlt, -⟩ := hP.of_get?_parent (Pool.holds_of_mem hw) hparent
    have hevent := hanswers throwToken (Pool.throwToken_eq_some he hrole)
    exact HandlerDone.housed (P := P.autoResume)
      (fun x hx hlive hid => hsup x hx hlive fun h => hid h.1) hmem hlt.ne hevent h
  | plain he hrole _ =>
    have hgoes : ¬ (w.id = w.id ∧ P.throwToken d w ≠ none) := fun hends =>
      hends.2 (by simp [Pool.throwToken, he, hrole])
    exact housed_onFlows (hsup w hw (Token.live_of_waiting hwaiting) hgoes) _

end Complete

theorem Supports.housed_onFlows {w : Token} (h : Supports ends P Q) (hw : w ∈ P.tokens)
    (hwaiting : w.status = .waiting) (hends : ¬ ends w) (flows : List String) :
    Housed Q (onFlows w flows) :=
  NexusWorkflow.housed_onFlows (h w hw (Token.live_of_waiting hwaiting) hends) flows

theorem Deed.outlive {command : EngineCommand} (hP : P.Coherent [])
    (h : Deed d P command Q origins) : Outlive (P.EndsInCommand d command) P Q := by
  have hfates := h.fates hP.nodup
  have hall : (∀ x, ¬ P.EndsInCommand d command x) → Outlive (P.EndsInCommand d command) P Q := by
    intro hnone y hy hlive
    obtain ⟨x, hx, hfate⟩ := hfates y hy
    exact ⟨x, hx, hfate.bare, hfate.live hlive, hnone x⟩
  cases h with
  | completeServiceTask _ hw _ h => exact h.outlive hP hw
  | completeUserTask _ _ hw _ h => exact h.outlive hP hw
  | cancelInstance =>
    intro y hy hlive
    rcases Pool.mem_cancelAll hy with ⟨-, hspared⟩ | ⟨x, -, -, rfl⟩
    · rw [hlive] at hspared
      cases hspared
    · cases hlive
  | _ => exact hall fun _ => id

theorem Deed.housed {command : EngineCommand} (hP : P.Coherent []) (hcontained : P.Contained d)
    (htop : command.Completing (Pool.CompletesOnTop d) P)
    (hanswers : command.Completing (Pool.AnswersLive d) P)
    (hsup : Supports (P.EndsInCommand d command) P Q) (h : Deed d P command Q origins) :
    Housed Q origins := by
  cases h with
  | startProcess _ _ _ =>
    intro o ho s hs
    rw [List.mem_singleton.1 ho] at hs
    cases hs
  | completeServiceTask _ hw hwaiting h =>
    exact h.housed hP hcontained hw hwaiting (htop _ hw rfl) (hanswers _ hw rfl) hsup
  | completeUserTask _ _ hw hwaiting h =>
    exact h.housed hP hcontained hw hwaiting (htop _ hw rfl) (hanswers _ hw rfl) hsup
  | failCaught _ hw hwaiting _ => exact hsup.housed_onFlows hw hwaiting id _
  | fireInterrupting hw hwaiting _ _ _ => exact hsup.housed_onFlows hw hwaiting id _
  | fireBoundary hw hwaiting _ _ _ => exact hsup.housed_onFlows hw hwaiting id _
  | @fireCatch w hw hwaiting htype _ _ h =>
    have hframe := Frame.clearSiblings P w
    refine h.housed (hP.clearSiblings w) (hcontained.frame hframe) (mem_clearSiblings_self hw)
      hwaiting (htop w hw rfl htype) (hanswers w hw rfl htype) fun y hy hlive _ s hs => ?_
    obtain ⟨x, hx, hfate⟩ := Fates.clearSiblings (R := fun _ => True) P w y hy
    exact hsup x hx (hfate.live hlive) id s ((Token.tag_of_bare hfate.bare).trans hs)
  | failUncaught _ _ _ _ | suspendInstance _ | resumeInstance _ | cancelInstance =>
    exact housed_nil

/-- Targets of a message or a signal are resumed at which no live token has its sub-process. -/
theorem Resumes.hosted {targets : List Token} (hP : P.Coherent []) (hhosted : P.Hosted)
    (hfree : ∀ w ∈ targets, ∀ x ∈ P.tokens, x.status = .waiting → Pool.TouchesResume w x →
      ¬ P.Busy x.elementId) (h : Resumes d targets P P') : P'.Hosted := by
  induction h with
  | nil _ => exact hhosted
  | skip _ _ _ ih => exact ih hP hhosted fun w hw => hfree w (List.mem_cons_of_mem _ hw)
  | @resume w rest P P' hw hwaiting Q mid origins hresume hmade _ ih =>
    have hfates := hresume.fates (Pool.holds_of_mem hw)
    have hfrees : P.FreesHosts (Pool.TouchesResume w) fun _ => False :=
      fun x hx hxw htouch y hy hlive htag =>
        hfree w List.mem_cons_self x hx hxw htouch ⟨y, hy, htag, hlive⟩
    have hsup : Supports (fun _ => False) P Q :=
      hhosted.supports hfrees fun x hx hnot => hresume.stays hx hnot
    have hlive : Outlive (fun _ => False) P Q := fun y hy hlive =>
      (hfates y hy).imp fun x hx => ⟨hx.1, hx.2.bare, hx.2.live hlive, id⟩
    have hhoused : Housed Q origins := by
      obtain ⟨-⟩ := hresume
      exact hsup.housed_onFlows hw hwaiting id _
    -- a live token in `mid` has the tag of one in `P`
    have hbusy : ∀ s, mid.Busy s → P.Busy s := by
      rintro s ⟨y, hy, htag, hylive⟩
      obtain ⟨news, n, hR, -, rfl⟩ := hmade
      rcases List.mem_append.1 hy with hy | hy
      · obtain ⟨x, hx, hbare, hxlive, -⟩ := hlive y hy hylive
        exact ⟨x, hx, (Token.tag_of_bare hbare).trans htag, hxlive⟩
      · obtain ⟨o, ho, hoy⟩ := exists_of_forall₂_right hR hy
        obtain ⟨-⟩ := hresume
        obtain ⟨flowId, -, rfl⟩ := List.mem_map.1 ho
        exact ⟨w, hw, eq_some_of_truthy (hoy.tag.symm.trans htag), Token.live_of_waiting hwaiting⟩
    refine ih ((hresume.ready hP hw hwaiting).spawned hmade)
      ((hsup.hosted hlive).spawned hhoused hmade) fun v hv x hx hxw htouch hxbusy => ?_
    obtain ⟨z, hz, hzw, hbare, -⟩ := (hresume.stillWaiting.trans hmade.stillWaiting) x hx hxw
    have htouch' : Pool.TouchesResume v z := by
      unfold Pool.TouchesResume Pool.TouchesSiblings at htouch ⊢
      rwa [Token.id_of_bare hbare, Token.parent_of_bare hbare]
    refine hfree v (List.mem_cons_of_mem _ hv) z hz hzw htouch' ?_
    rw [Token.elementId_of_bare hbare]
    exact hbusy _ hxbusy

theorem Commanded.hosted {command : EngineCommand} (hP : P.Coherent [])
    (hcontained : P.Contained d) (hhosted : P.Hosted)
    (htop : command.Completing (Pool.CompletesOnTop d) P)
    (hanswers : command.Completing (Pool.AnswersLive d) P)
    (hfree : P.FreesHosts (P.TouchesCommand d · command) (P.EndsInCommand d command))
    (h : Commanded d P command P') : P'.Hosted := by
  cases h with
  | deed h hmade =>
    have hsup := hhosted.supports hfree fun x hx hnot => h.stays hx hnot
    exact (hsup.hosted (h.outlive hP)).spawned (h.housed hP hcontained htop hanswers hsup) hmade
  | deliverMessage _ _ h | broadcastSignal _ _ h =>
    refine h.hosted hP hhosted fun w hw x hx hwaiting htouch => ?_
    obtain ⟨hmem, hname⟩ := List.mem_filter.1 hw
    rintro ⟨y, hy, htag, hlive⟩
    exact hfree x hx hwaiting ⟨w, hmem, hname, htouch⟩ y hy hlive htag

/-! ## Every step keeps the hosts -/

theorem Trace.hosted (hd : d.WellScoped) {steps : List Step} {ctx : ExecutionContext}
    (h : Trace d steps ctx) (hlevel : ∀ st ∈ steps, st.KeepsLevel d)
    (hhosts : ∀ st ∈ steps, st.KeepsHosts d) : ctx.pool.Contained d ∧ ctx.pool.Hosted := by
  refine h.maintains (I := fun P => P.Contained d ∧ P.Hosted)
    (C := fun st => st.KeepsLevel d ∧ st.KeepsHosts d) ?_ ?_ ?_ ?_
    fun st hst => ⟨hlevel st hst, hhosts st hst⟩
  · intro n
    refine ⟨fun x hx => ?_, fun x hx => ?_⟩
    · cases hx
    · cases hx
  · exact fun P n _ _ _ hI => hI
  · intro before command after hst hcoh _ hI hcmd
    have htop : command.Completing (Pool.CompletesOnTop d) before.pool := hst.1
    have hhosts : before.pool.FreesHosts (before.pool.TouchesCommand d · command)
        (before.pool.EndsInCommand d command) ∧
          command.Completing (Pool.AnswersLive d) before.pool := hst.2
    exact ⟨hcmd.contained hd hcoh hI.1 htop,
      hcmd.hosted hcoh hI.1 hI.2 htop hhosts.2 hhosts.1⟩
  · intro before t after hst hcoh hI hturned
    have hcontained : before.pool.Contained d := hI.1
    have hhosted : before.pool.Hosted := hI.2
    have hkeeps : ∀ e, d.getElement t.erase.elementId = .ok e →
        before.pool.KeepsLevel d t.erase e := by
      intro e he
      have hlevel := hst.1
      unfold Step.KeepsLevel at hlevel
      simpa only [show d.getElement t.elementId = .ok e from he] using hlevel
    have hhosts : (∃ x ∈ before.pool.tokens, x.id = t.id ∧ x.status = .active) ∧
        before.pool.FreesHosts (before.pool.TouchesTurn d t.erase) (EndsInTurn d t.erase) := hst.2
    exact ⟨hturned.contained hd hcontained hcoh hkeeps,
      hturned.hosted hcoh hcontained hhosted hhosts.1 hhosts.2 hkeeps⟩

/-! ## The completion of a sub-process -/

/-- The token that waited at the sub-process has been completed. -/
def CompletesSubProcess (s : String) (ctx ctx' : ExecutionContext) : Prop :=
  ∃ outer ∈ ctx.tokenMap.values, outer.elementId = s ∧ outer.status = .waiting ∧
    ∃ x ∈ ctx'.tokenMap.values, x.id = outer.id ∧ x.status = .completed

/-- A sub-process is completed only when no token inside is live. -/
theorem checkSubProcessCompletion_noLive {ctx ctx' : ExecutionContext} {s : String}
    (hn : ctx.pool.Numbered) (hP : ctx.pool.Contained d) (hhosted : ctx.pool.Hosted)
    (h : checkSubProcessCompletion d ctx s = .ok ctx') (hdone : CompletesSubProcess s ctx ctx') :
    ∀ x ∈ ctx.tokenMap.values, d.Within s x.elementId → x.live = false := by
  obtain ⟨Q, origins, hend, hmade⟩ := checkSubProcessCompletion_subEnd hn h
  obtain ⟨outer, houter, -, hwaiting, y, hy, hid, hcompleted⟩ := hdone
  -- where nothing is completed, the token goes on waiting
  have hsame : origins = [] → Q = ctx.pool → False := by
    rintro rfl rfl
    obtain ⟨news, n, hR, -, hpool⟩ := hmade
    cases hR
    have hmem : y.erase ∈ ctx.pool.tokens := by
      have := ctx'.mem_pool hy
      rw [hpool] at this
      simpa [Pool.spawn] using this
    have heq := Pool.eq_of_id ctx.nodup_pool hmem (ctx.mem_pool houter) hid
    have hstatus : y.erase.status = outer.erase.status := by rw [heq]
    rw [Token.status_erase, Token.status_erase, hcompleted, hwaiting] at hstatus
    cases hstatus
  cases hend with
  | busy _ => exact absurd rfl fun h => hsame h rfl
  | orphan _ _ => exact absurd rfl fun h => hsame h rfl
  | complete hbusy _ _ =>
    intro x hx hwithin
    exact hhosted.not_live (x := x.erase) hP hbusy (ctx.mem_pool hx) hwithin

/-- The token in hand is no host. -/
theorem Pool.Hosted.finish_hand {t : Token} (h : P.Hosted) (hP : P.Coherent [t]) :
    (P.finish t).Hosted := by
  intro y hy hlive s hs
  obtain ⟨x, hx, hplace, hwaiting⟩ := h y (mem_of_finish hy hlive).1 hlive s hs
  refine ⟨x, Pool.mem_finish_of_ne hx fun hid => ?_, hplace, hwaiting⟩
  exact hP.waiting_notMem_flight hx hwaiting (by simp [Pool.flight, hid])

/-- In a run in which no multi-instance activity and no foreign handler is started inside a
sub-process, all tokens carry the id of the sub-process around them.  If moreover no token that
waits at a sub-process is taken from tokens inside that go on, a sub-process is completed only when
no token inside is live, at any depth. -/
theorem contained_of_keepsLevel (hd : d.WellScoped) {steps : List Step} {state : EngineState}
    {nextId : Nat} (run : Run d steps state nextId) (hlevel : ∀ st ∈ steps, st.KeepsLevel d) :
    (∀ t ∈ state.tokens, t.subProcessInstanceId = d.enclosing t.elementId) ∧
    ((∀ st ∈ steps, st.KeepsHosts d) → ∀ st ∈ steps, ∀ t s ctx, st.action = .process t →
      checkSubProcessCompletion d (st.before.setStatus t .completed) s = .ok ctx →
      CompletesSubProcess s (st.before.setStatus t .completed) ctx →
      ∀ x ∈ (st.before.setStatus t .completed).tokenMap.values,
        d.Within s x.elementId → x.live = false) := by
  obtain ⟨ctx, inst, htrace, -, -, rfl, -⟩ := run.trace
  refine ⟨fun t ht => htrace.contained hd hlevel t.erase (ctx.mem_pool ht), ?_⟩
  intro hhosts st hst t s ctx' hact hcheck hdone
  obtain ⟨earlier, later, hsplit⟩ := List.append_of_mem hst
  obtain ⟨ctx0, htrace0, hpool, hcoh, -⟩ := htrace.split_process hsplit hact
  have hearlier : ∀ x ∈ earlier, x ∈ steps := fun x hx => hsplit ▸ List.mem_append_left _ hx
  have hbefore : st.before.pool.Contained d ∧ st.before.pool.Hosted := by
    have hkept := htrace0.hosted hd (fun x hx => hlevel x (hearlier x hx))
      fun x hx => hhosts x (hearlier x hx)
    rw [hpool] at hkept
    exact hkept
  have ht : st.before.pool.Holds t.erase := hcoh.holds List.mem_cons_self
  have hfinish : (st.before.setStatus t .completed).pool = st.before.pool.finish t.erase :=
    pool_setStatus_completed ht.mem_ids
  have hframe := Frame.finish hcoh.nodup ht
  refine checkSubProcessCompletion_noLive ?_ ?_ ?_ hcheck hdone
  · rw [hfinish]
    exact hframe.numbered hcoh.numbered
  · rw [hfinish]
    exact hbefore.1.frame hframe
  · rw [hfinish]
    exact hbefore.2.finish_hand hcoh

/-! ## A transaction inside a sub-process -/

namespace Diagram

def insideFlows : List SequenceFlow :=
  [.between "toTask" "inStart" "task", .between "toDone" "task" "done"]

def aroundFlows : List SequenceFlow :=
  [.between "toSub" "start" "sub", .between "toEnd" "sub" "end"]

/-- A sub-process with one activity. -/
def aroundTask (task : BpmnFlowElement) : ProcessDefinition :=
  definition aroundFlows
    [start aroundFlows "start",
      subProcess aroundFlows "sub" false insideFlows "inStart"
        [start insideFlows "inStart", task, finish insideFlows "done" .none],
      finish aroundFlows "end" .none]

def betweenFlows : List SequenceFlow :=
  [.between "toTx" "subStart" "tx", .between "toLeft" "tx" "left",
    .between "toLate" "timer" "late"]

/-- A user task in a transaction in a sub-process; a timer interrupts the transaction. -/
def aroundTransaction : ProcessDefinition :=
  definition aroundFlows
    [start aroundFlows "start",
      subProcess aroundFlows "sub" false betweenFlows "subStart"
        [start betweenFlows "subStart",
          subProcess betweenFlows "tx" true insideFlows "inStart"
            [start insideFlows "inStart", userTask insideFlows "task",
              finish insideFlows "done" .none],
          boundary betweenFlows "timer" "tx" { type := .timer },
          finish betweenFlows "left" .none, finish betweenFlows "late" .none],
      finish aroundFlows "end" .none]

end Diagram

open Diagram

/-- The task is completed, and the timer fires when the transaction is over. -/
theorem contained_aroundTransaction : ∃ r : Replay,
    Run aroundTransaction r.steps r.state r.nextId ∧
    (∃ t ∈ r.state.tokens, t.elementId = "sub" ∧ t.status = .completed) ∧
    (∀ t ∈ r.state.tokens,
      t.subProcessInstanceId = aroundTransaction.enclosing t.elementId) ∧
    ∀ st ∈ r.steps, ∀ t s ctx, st.action = .process t →
      checkSubProcessCompletion aroundTransaction (st.before.setStatus t .completed) s = .ok ctx →
      CompletesSubProcess s (st.before.setStatus t .completed) ctx →
      ∀ x ∈ (st.before.setStatus t .completed).tokenMap.values,
        aroundTransaction.Within s x.elementId → x.live = false := by
  obtain ⟨r, hrun, htest⟩ := exists_run_of_replay aroundTransaction always 20 none
    [.completeUserTask 10 "" none, .fireTimer 8] (fun r =>
      (∃ t ∈ r.state.tokens, t.elementId = "sub" ∧ t.status = .completed) ∧
      (∀ st ∈ r.steps, st.KeepsLevel aroundTransaction) ∧
      ∀ st ∈ r.steps, st.KeepsHosts aroundTransaction) (by decide +kernel)
  obtain ⟨hcompleted, hlevel, hhosts⟩ := of_decide_eq_true htest
  obtain ⟨htags, hends⟩ := contained_of_keepsLevel (by decide +kernel) hrun hlevel
  exact ⟨r, hrun, hcompleted, htags, hends hhosts⟩

/-- The children of a multi-instance task wait inside the sub-process without its id; and when the
timer interrupts the transaction, the sub-process around it is completed while the task goes on. -/
theorem not_contained_aroundTasks :
    (∃ r : Replay, Run (aroundTask (userTasks insideFlows "task")) r.steps r.state r.nextId ∧
      (aroundTask (userTasks insideFlows "task")).WellScoped ∧
      ∃ t ∈ r.state.tokens, t.status = .waiting ∧ t.subProcessInstanceId = none ∧
        (aroundTask (userTasks insideFlows "task")).enclosing t.elementId = some "sub") ∧
    ∃ r : Replay, Run aroundTransaction r.steps r.state r.nextId ∧ aroundTransaction.WellScoped ∧
      (∃ t ∈ r.state.tokens, t.elementId = "sub" ∧ t.status = .completed) ∧
      ∃ t ∈ r.state.tokens, t.status = .waiting ∧ aroundTransaction.Within "sub" t.elementId := by
  obtain ⟨r, hrun, htest⟩ := exists_run_of_replay (aroundTask (userTasks insideFlows "task"))
    twoItems 10 none [] (fun r => ∃ t ∈ r.state.tokens, t.status = .waiting ∧
      t.subProcessInstanceId = none ∧
        (aroundTask (userTasks insideFlows "task")).enclosing t.elementId = some "sub")
    (by decide +kernel)
  obtain ⟨r', hrun', htest'⟩ := exists_run_of_replay aroundTransaction always 20 none
    [.fireTimer 8] (fun r =>
      (∃ t ∈ r.state.tokens, t.elementId = "sub" ∧ t.status = .completed) ∧
      ∃ t ∈ r.state.tokens, t.status = .waiting ∧
        aroundTransaction.enclosing t.elementId = some "tx") (by decide +kernel)
  obtain ⟨hcompleted, t, ht, hwaiting, hplace⟩ := of_decide_eq_true htest'
  refine ⟨⟨r, hrun, by decide +kernel, of_decide_eq_true htest⟩, r', hrun', by decide +kernel,
    hcompleted, t, ht, hwaiting, .deeper hplace (.direct ?_)⟩
  decide +kernel

end NexusWorkflow
