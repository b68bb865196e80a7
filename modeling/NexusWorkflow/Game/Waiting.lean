import NexusWorkflow.Game.Frame

/-!
# What waiting tokens wait for

A token starts to wait in one place only: when its turn parks it at its element.  The other rules
end the waiting of tokens or leave it as it is, so what a token waits for can be told from its
element.
-/

namespace NexusWorkflow

variable {d : ProcessDefinition} {P Q R P' : Pool} {origins : List Origin}

/-! ## Waiting goes on -/

/-- What waits in `Q` waited in `P`, at the same place and for the same thing. -/
def StillWaiting (P Q : Pool) : Prop :=
  ∀ y ∈ Q.tokens, y.status = .waiting →
    ∃ x ∈ P.tokens, x.status = .waiting ∧ x.bare = y.bare ∧ x.waitingFor = y.waitingFor

namespace StillWaiting

theorem refl (P : Pool) : StillWaiting P P := fun y hy hw => ⟨y, hy, hw, rfl, rfl⟩

theorem trans (h : StillWaiting P Q) (h' : StillWaiting Q R) : StillWaiting P R := by
  intro z hz hw
  obtain ⟨y, hy, hyw, hbare, hfor⟩ := h' z hz hw
  obtain ⟨x, hx, hxw, hbare', hfor'⟩ := h y hy hyw
  exact ⟨x, hx, hxw, hbare'.trans hbare, hfor'.trans hfor⟩

theorem of_eq (h : StillWaiting P Q) (ht : R.tokens = Q.tokens) : StillWaiting P R := by
  unfold StillWaiting
  rw [ht]
  exact h

theorem put (P : Pool) {t : Token} (ht : t.status ≠ .waiting) : StillWaiting P (P.put t) := by
  intro y hy hw
  rcases Pool.mem_put hy with rfl | ⟨hy, -⟩
  · exact absurd hw ht
  · exact ⟨y, hy, hw, rfl, rfl⟩

theorem finish (P : Pool) (t : Token) : StillWaiting P (P.finish t) :=
  put P (t := { t with status := .completed }) (by simp)

theorem cancelAll (P : Pool) (p : Token → Bool) : StillWaiting P (P.cancelAll p) := by
  intro y hy hw
  rcases Pool.mem_cancelAll hy with ⟨hy, -⟩ | ⟨x, -, -, rfl⟩
  · exact ⟨y, hy, hw, rfl, rfl⟩
  · cases hw

theorem cancelOne (P : Pool) (t : Token) : StillWaiting P (P.cancelOne t) :=
  (put P (t := { t with status := .cancelled }) (by simp)).of_eq rfl

theorem clearSiblings (P : Pool) (w : Token) : StillWaiting P (P.clearSiblings w) := by
  unfold Pool.clearSiblings
  cases w.parentTokenId with
  | none => exact refl P
  | some parent => exact cancelAll P _

theorem closeLoop (P : Pool) (p : Token) (elementId : String) :
    StillWaiting P (P.closeLoop p elementId) :=
  (finish P p).trans (cancelAll _ _)

end StillWaiting

theorem SubEnd.stillWaiting {s : String} (h : SubEnd d s P Q origins) : StillWaiting P Q := by
  cases h with
  | busy _ | orphan _ _ => exact .refl P
  | complete _ _ _ => exact .finish P _

theorem FireCancel.stillWaiting {s : String} {outer : Token}
    (h : FireCancel d s outer P Q origins) : StillWaiting P Q := by
  cases h with
  | none _ | unarmed _ _ => exact .refl P
  | fire _ _ => exact (StillWaiting.finish P _).trans (.cancelOne _ _)

theorem TxCancel.stillWaiting {s : String} {t : Token} (h : TxCancel d s t P Q origins) :
    StillWaiting P Q := by
  have hclear : StillWaiting P (P.clearScope s t) := (StillWaiting.cancelAll P _).of_eq rfl
  cases h with
  | compensate _ | orphan _ _ => exact hclear
  | fire _ _ hfire => exact hclear.trans hfire.stillWaiting

theorem Ends.stillWaiting {t : Token} {e : EventElement} (h : Ends d t P e Q origins) :
    StillWaiting P Q := by
  cases h with
  | cancelTop _ _ | more _ _ _ _ => exact .refl P
  | cancel _ _ h => exact h.stillWaiting
  | terminate _ => exact (StillWaiting.cancelAll P _).of_eq rfl
  | inner _ _ _ h => exact h.stillWaiting
  | last _ _ _ _ _ => exact (StillWaiting.refl P).of_eq rfl

theorem ChildDone.stillWaiting {c : Token} {e : BpmnFlowElement}
    {lc : MultiInstanceLoopCharacteristics} (h : ChildDone c e lc P Q origins) :
    StillWaiting P Q := by
  have hfinish := StillWaiting.finish P c
  cases h with
  | orphan _ => exact .refl P
  | noLoop _ _ _ | wait _ _ _ => exact hfinish
  | @next p hp _ _ loopState =>
    -- the parent keeps its status
    intro y hy hw
    rcases Pool.mem_put hy with rfl | ⟨hy, -⟩
    · obtain ⟨i, -, hget⟩ := Option.bind_eq_some_iff.1 hp
      exact ⟨p, (Pool.get?_eq_some hget).1, hw, rfl, rfl⟩
    · exact hfinish y hy hw
  | lastItem _ _ _ | allDone _ _ _ => exact hfinish.trans (.closeLoop _ _ _)
  | condition _ _ _ =>
    exact (hfinish.trans (.cancelAll _ _)).trans (.closeLoop _ _ _)

theorem HandlerDone.stillWaiting {h throwToken : Token}
    (hdone : HandlerDone d h throwToken P Q origins) : StillWaiting P Q := by
  have hfinish := StillWaiting.finish P h
  cases hdone with
  | wait _ | orphan _ _ _ _ _ => exact hfinish
  | fire _ _ _ _ _ hfire => exact hfinish.trans hfire.stillWaiting
  | advance _ _ _ => exact hfinish.trans (.finish _ _)

theorem Complete.stillWaiting {w : Token} (h : Complete d P w Q origins) : StillWaiting P Q := by
  have hresume : StillWaiting P P.autoResume := (StillWaiting.refl P).of_eq rfl
  cases h with
  | child _ _ h => exact hresume.trans h.stillWaiting
  | handler _ _ h => exact hresume.trans h.stillWaiting
  | plain _ _ _ =>
    exact (hresume.trans ((StillWaiting.cancelAll _ _).trans (.finish _ w))).of_eq rfl

theorem Resume.stillWaiting {w : Token} (h : Resume d P w Q origins) : StillWaiting P Q := by
  obtain ⟨-⟩ := h
  exact (StillWaiting.finish P w).trans (.clearSiblings _ _)

theorem Deed.stillWaiting {command : EngineCommand} (h : Deed d P command Q origins) :
    StillWaiting P Q := by
  cases h with
  | startProcess _ _ _ | failUncaught _ _ _ _ | suspendInstance _ | resumeInstance _ =>
    exact (StillWaiting.refl P).of_eq rfl
  | completeServiceTask _ _ _ h | completeUserTask _ _ _ _ h => exact h.stillWaiting
  | failCaught _ _ _ _ => exact (StillWaiting.cancelOne P _).trans (.cancelAll _ _)
  | fireInterrupting _ _ _ _ _ => exact (StillWaiting.finish P _).trans (.cancelAll _ _)
  | fireBoundary _ _ _ _ _ => exact .finish P _
  | fireCatch _ _ _ h => exact (StillWaiting.clearSiblings P _).trans h.stillWaiting
  | cancelInstance => exact (StillWaiting.cancelAll P _).of_eq rfl

theorem Spawned.stillWaiting {α : Type} {R : α → Token → Prop} {items : List α}
    (h : Spawned R items P P') : StillWaiting P P' := by
  obtain ⟨news, n, -, hfresh, rfl⟩ := h
  intro y hy hw
  rcases List.mem_append.1 hy with hy | hy
  · exact ⟨y, hy, hw, rfl, rfl⟩
  · rw [hfresh.active y hy] at hw
    cases hw

theorem Resumes.stillWaiting {targets : List Token} (h : Resumes d targets P P') :
    StillWaiting P P' := by
  induction h with
  | nil P => exact .refl P
  | skip _ _ _ ih => exact ih
  | resume _ _ hresume hmade _ ih => exact (hresume.stillWaiting.trans hmade.stillWaiting).trans ih

/-- A command makes no token wait. -/
theorem Commanded.stillWaiting {command : EngineCommand} (h : Commanded d P command P') :
    StillWaiting P P' := by
  cases h with
  | deed h hmade => exact h.stillWaiting.trans hmade.stillWaiting
  | deliverMessage _ _ h | broadcastSignal _ _ h => exact h.stillWaiting

/-- In a turn only the token in hand can start to wait. -/
theorem Turn.waiting {t y : Token} (h : Turn d P t Q origins) (hy : y ∈ Q.tokens)
    (hw : y.status = .waiting) :
    (∃ x ∈ P.tokens, x.status = .waiting ∧ x.bare = y.bare ∧ x.waitingFor = y.waitingFor) ∨
      ∃ e condition loopState records, d.getElement t.elementId = .ok e ∧
        Parks d P t e condition loopState origins records ∧
        y = { t with status := .waiting, waitingFor := some condition, loopState } := by
  cases h with
  | pass _ _ _ => exact Or.inl (StillWaiting.finish P t y hy hw)
  | @park e he condition loopState origins records hpark =>
    rcases Pool.mem_put hy with rfl | ⟨hy, -⟩
    · exact Or.inr ⟨e, condition, loopState, records, he, hpark, rfl⟩
    · exact Or.inl ⟨y, hy, hw, rfl, rfl⟩
  | branch _ _ _ => exact Or.inl (StillWaiting.finish P t y hy hw)
  | ends _ h => exact Or.inl ((StillWaiting.finish P t).trans h.stillWaiting y hy hw)
  | child _ _ _ h => exact Or.inl (h.stillWaiting y hy hw)

/-! ## What for -/

/-- The token is the parent of the children of a multi-instance activity, not one of them. -/
def Token.Wraps (t : Token) (e : BpmnFlowElement) : Prop :=
  e.loopCharacteristics.isSome ∧ t.parentTokenId = none

instance (t : Token) (e : BpmnFlowElement) : Decidable (t.Wraps e) :=
  inferInstanceAs (Decidable (_ ∧ _))

/-- What the token waits for at the element, where a token can wait at all. -/
def Token.conditionAt (t : Token) (e : BpmnFlowElement) : Option WaitCondition :=
  match e with
  | .serviceTask _ | .scriptTask _ | .subProcess _ _ _ _ _ => some { type := .external }
  | .userTask _ => some { type := if t.Wraps e then .external else .userTask }
  | .manualTask _ => if t.Wraps e then some { type := .external } else none
  | .intermediateCatchEvent e => e.eventDefinition.catchCondition
  | .boundaryEvent b => b.waitCondition
  | .intermediateThrowEvent e =>
      if e.eventDefinition.type = .compensation then some { type := .external } else none
  | _ => none

theorem Token.conditionAt_of_wraps {t : Token} {e : BpmnFlowElement} (h : t.Wraps e) :
    t.conditionAt e = some { type := .external } := by
  have hloop := h.1
  cases e <;> simp [conditionAt, h] <;> simp [BpmnFlowElement.loopCharacteristics] at hloop

theorem Token.conditionAt_of_bare {t x : Token} (hb : t.bare = x.bare) (e : BpmnFlowElement) :
    t.conditionAt e = x.conditionAt e := by
  have hwraps : t.Wraps e ↔ x.Wraps e := by rw [Wraps, Wraps, Token.parent_of_bare hb]
  cases e <;> simp only [conditionAt, hwraps]

theorem Parks.conditionAt {t : Token} {e : BpmnFlowElement} {condition : WaitCondition}
    {loopState : Option LoopState} {records : List CompensationRecord}
    (h : Parks d P t e condition loopState origins records) : t.conditionAt e = some condition := by
  cases h with
  | serviceTask _ _ | scriptTask _ _ | subProcess _ _ _ _ _ => rfl
  | userTask e h =>
    have hnot : ¬ t.Wraps (.userTask e) := fun hw => by
      rcases h with h | h
      · simp [Token.Wraps, BpmnFlowElement.loopCharacteristics, h] at hw
      · exact h hw.2
    simp [Token.conditionAt, hnot]
  | sequential _ hlc hparent _ _ => exact Token.conditionAt_of_wraps ⟨by simp [hlc], hparent⟩
  | parallel _ hlc hparent _ _ => exact Token.conditionAt_of_wraps ⟨by simp [hlc], hparent⟩
  | catchEvent _ h => exact h
  | boundaryEvent _ h => exact h
  | throwEvent _ hcomp _ => exact if_pos hcomp

theorem EventDefinition.catchCondition_ne_userTask {definition : EventDefinition}
    {c : WaitCondition} (h : definition.catchCondition = some c) : c.type ≠ .userTask := by
  unfold catchCondition at h
  cases htype : definition.type <;> simp [htype] at h <;> simp [← h]

theorem BoundaryEventElement.waitCondition_ne_userTask {b : BoundaryEventElement}
    {c : WaitCondition} (h : b.waitCondition = some c) : c.type ≠ .userTask := by
  unfold waitCondition at h
  cases htype : b.eventDefinition.type <;> simp [htype] at h <;> simp [← h]

/-- The token waits for what its element says. -/
def Token.Justified (d : ProcessDefinition) (t : Token) : Prop :=
  ∃ e, d.getElement t.elementId = .ok e ∧ t.conditionAt e = t.waitingFor ∧ t.waitingFor.isSome

/-- All waiting tokens wait for what their elements say. -/
def Pool.Justified (d : ProcessDefinition) (P : Pool) : Prop :=
  ∀ x ∈ P.tokens, x.status = .waiting → x.Justified d

theorem Token.Justified.of_bare {t x : Token} (h : t.Justified d) (hb : t.bare = x.bare)
    (hfor : t.waitingFor = x.waitingFor) : x.Justified d := by
  obtain ⟨e, he, hcondition, hsome⟩ := h
  refine ⟨e, ?_, ?_, hfor ▸ hsome⟩
  · rw [← Token.elementId_of_bare hb]
    exact he
  · rw [← hfor, ← hcondition]
    exact (Token.conditionAt_of_bare hb e).symm

theorem Pool.Justified.stillWaiting (h : P.Justified d) (hstill : StillWaiting P Q) :
    Q.Justified d := by
  intro y hy hw
  obtain ⟨x, hx, hxw, hbare, hfor⟩ := hstill y hy hw
  exact (h x hx hxw).of_bare hbare hfor

theorem Pool.Justified.spawned {α : Type} {R : α → Token → Prop} {items : List α}
    (h : P.Justified d) (hmade : Spawned R items P P') : P'.Justified d :=
  h.stillWaiting hmade.stillWaiting

theorem Pool.Justified.turn {t : Token} (h : P.Justified d) (hturn : Turn d P t Q origins) :
    Q.Justified d := by
  intro y hy hw
  rcases hturn.waiting hy hw with ⟨x, hx, hxw, hbare, hfor⟩ | ⟨e, c, l, r, he, hpark, rfl⟩
  · exact (h x hx hxw).of_bare hbare hfor
  · exact ⟨e, he, hpark.conditionAt, rfl⟩

end NexusWorkflow
