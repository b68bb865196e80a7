import NexusWorkflow.Game.Acts
import NexusWorkflow.Game.Fate
import NexusWorkflow.Run.Reload

/-!
# Tokens that start to wait for an event or a user

A token that starts to wait for a timer, a message, a signal or a user does so in its own turn, and
an event says so.  Unless such a token is completed in the same call, by the cancel boundary event
of a transaction that has the id of its element, it waits until the call is over, or it is
cancelled.
-/

namespace NexusWorkflow

open ExecutionContext

variable {d : ProcessDefinition} {P Q P' : Pool} {origins : List Origin}
  {ctx ctx' : ExecutionContext} {t : Token}

/-! ## What events say -/

/-- The token that an event reports as waiting, and what for, if something outside the engine has to
know. -/
def ExecutionEvent.alert : ExecutionEvent → Option (Nat × WaitCondition)
  | .tokenWaiting _ tokenId _ waitingFor =>
      if waitingFor.type = .external then none else some (tokenId, waitingFor)
  | _ => none

def alerts (events : List ExecutionEvent) : List (Nat × WaitCondition) := events.filterMap (·.alert)

theorem ExecutionEvent.alert_of_plain {event : ExecutionEvent} (h : event.plain = true) :
    event.alert = none := by
  cases event <;> first | rfl | cases h

def Label.alert : Label → Option (Nat × WaitCondition)
  | .waits t condition => if condition.type = .external then none else some (t.id, condition)
  | _ => none

theorem Acts.alerts {labels : List Label} (h : Acts labels ctx ctx') :
    alerts ctx'.events = alerts ctx.events ++ labels.filterMap Label.alert :=
  h.filterMap_events (fun _ => ExecutionEvent.alert_of_plain) (fun _ _ => rfl) (fun _ _ => rfl)
    fun label hscope => by cases label <;> first | rfl | cases hscope

/-! ## One turn -/

/-- What the token waits for at its element, if something outside the engine has to know. -/
def Token.alertAt (d : ProcessDefinition) (t : Token) : Option WaitCondition :=
  match d.getElement t.elementId with
  | .ok e => (t.conditionAt e).filter (·.type ≠ .external)
  | .error _ => none

theorem Token.alertAt_eq_some {c : WaitCondition} :
    t.alertAt d = some c ↔
      ∃ e, d.getElement t.elementId = .ok e ∧ t.conditionAt e = some c ∧ c.type ≠ .external := by
  unfold alertAt
  cases d.getElement t.elementId with
  | error _ => simp
  | ok e => simp [Option.filter_eq_some_iff]

/-- The elements where a token waits for an event or a user. -/
theorem Token.conditionAt_cases {e : BpmnFlowElement} {c : WaitCondition}
    (h : t.conditionAt e = some c) (hc : c.type ≠ .external) :
    (∃ u, e = .userTask u ∧ ¬ t.Wraps e ∧ c = { type := .userTask }) ∨
      (∃ u, e = .intermediateCatchEvent u ∧ u.eventDefinition.catchCondition = some c) ∨
      ∃ b, e = .boundaryEvent b ∧ b.waitCondition = some c := by
  have hext : some ({ type := .external } : WaitCondition) ≠ some c := by
    rintro ⟨⟩
    exact hc rfl
  cases e with
  | userTask u =>
    by_cases hwraps : t.Wraps (.userTask u)
    · exact absurd ((Token.conditionAt_of_wraps hwraps).symm.trans h) hext
    · simp only [conditionAt, if_neg hwraps] at h
      exact .inl ⟨u, rfl, hwraps, (Option.some.inj h).symm⟩
  | intermediateCatchEvent u => exact .inr (.inl ⟨u, rfl, h⟩)
  | boundaryEvent b => exact .inr (.inr ⟨b, rfl, h⟩)
  | serviceTask _ | scriptTask _ | subProcess _ _ _ _ _ => exact absurd h hext
  | manualTask u =>
    simp only [conditionAt] at h
    split_ifs at h
    exact absurd h hext
  | intermediateThrowEvent u =>
    simp only [conditionAt] at h
    split_ifs at h
    exact absurd h hext
  | _ => cases h

theorem Label.alert_of_inLoop {p : Token} {lc : MultiInstanceLoopCharacteristics} {label : Label}
    (h : label.InLoop p lc) : label.alert = none := by
  cases label <;> first | rfl | exact h.elim

theorem Propagates.alerts {s : String} {labels : List Label} (h : Propagates ctx s labels) :
    labels.filterMap Label.alert = [] := by
  cases h <;> rfl

/-- A turn is silent about tokens that wait for no event and no user. -/
theorem TurnActs.alerts {labels : List Label} (h : TurnActs d ctx t labels)
    (hnone : t.alertAt d = none) : labels.filterMap Label.alert = [] := by
  cases h with
  | silent | completes _ | subProcess _ _ => rfl
  | @waits e he condition hc _ =>
    by_cases hext : condition.type = .external
    · simp [Label.alert, hext]
    · rw [Token.alertAt_eq_some.2 ⟨e, he, hc, hext⟩] at hnone
      cases hnone
  | inner _ _ h => exact h.alerts
  | loop _ _ _ h =>
    exact List.filterMap_eq_nil_iff.2 fun label hlabel => Label.alert_of_inLoop (h label hlabel)

/-- The events of a turn report the token in hand, if it waits for an event or a user. -/
theorem processToken_alerts (h : processToken d ctx t = .ok ctx') :
    alerts ctx'.events = alerts ctx.events ++ ((t.alertAt d).map fun c => (t.id, c)).toList := by
  cases hat : t.alertAt d with
  | none =>
    obtain ⟨labels, hlabels, hacts⟩ := processToken_acts h
    rw [hacts.alerts, hlabels.alerts hat]
    rfl
  | some c =>
    obtain ⟨e, he, hcond, hc⟩ := Token.alertAt_eq_some.1 hat
    have hwait : ∀ {c' : ExecutionContext}, Acts [.waits t c] ctx c' →
        alerts c'.events = alerts ctx.events ++ [(t.id, c)] := by
      intro c' hacts
      rw [hacts.alerts]
      simp [Label.alert, hc]
    unfold processToken at h
    rw [he] at h
    rcases Token.conditionAt_cases hcond hc with ⟨u, rfl, hwraps, rfl⟩ | ⟨u, rfl, hu⟩ | ⟨b, rfl, hb⟩
    · have h : handleTask d ctx t (.userTask u)
          (.ok (spawnBoundaryTokens d (suspendToken ctx t .userTask) t u.id)) = .ok ctx' := h
      unfold handleTask at h
      split at h
      · rename_i lc hlc hparent
        exact absurd ⟨by rw [hlc]; rfl, hparent⟩ hwraps
      · rw [← Except.ok.inj h]
        exact hwait ((Acts.single (.wait t { type := .userTask })).before
          (spawnBoundaryTokens_acts d _ t u.id))
    · obtain ⟨condition, hcondition, hacts⟩ := handleIntermediateCatchEvent_acts h
      cases hu.symm.trans hcondition
      exact hwait hacts
    · obtain ⟨condition, hcondition, hacts⟩ := handleBoundaryEventWait_acts h
      cases hb.symm.trans hcondition
      exact hwait hacts

/-- A token that waits for an event or a user after a turn has waited for it, or was in hand. -/
theorem Turn.alert {y : Token} {c : WaitCondition} (h : Turn d P t Q origins) (hy : y ∈ Q.tokens)
    (hw : y.status = .waiting) (hfor : y.waitingFor = some c) (hc : c.type ≠ .external) :
    (∃ x ∈ P.tokens, x.status = .waiting ∧ x.bare = y.bare ∧ x.waitingFor = some c) ∨
      t.alertAt d = some c ∧ t.bare = y.bare := by
  rcases h.waiting hy hw with ⟨x, hx, hxw, hbare, hxfor⟩ | ⟨e, condition, _, _, he, hparks, rfl⟩
  · exact .inl ⟨x, hx, hxw, hbare, hxfor.trans hfor⟩
  · cases hfor
    exact .inr ⟨Token.alertAt_eq_some.2 ⟨e, he, hparks.conditionAt, hc⟩, rfl⟩

/-- The token in hand waits, if its element says so. -/
theorem Turn.waits {c : WaitCondition} (h : Turn d P t Q origins) (ht : P.Holds t)
    (hat : t.alertAt d = some c) :
    ∃ y ∈ Q.tokens, y.id = t.id ∧ y.status = .waiting ∧ y.waitingFor = some c := by
  obtain ⟨e, he, hcond, hc⟩ := Token.alertAt_eq_some.1 hat
  have hplace := Token.conditionAt_cases hcond hc
  cases h with
  | @park e' he' condition loopState _ _ hparks =>
    cases he.symm.trans he'
    cases hcond.symm.trans hparks.conditionAt
    obtain ⟨y, hy, hbare⟩ := Pool.holds_iff.1 ht
    exact ⟨{ t with status := .waiting, waitingFor := some c, loopState },
      List.mem_map.2 ⟨y, hy, if_pos (Token.id_of_bare hbare)⟩, rfl, rfl, rfl⟩
  | pass he' hexits _ =>
    cases he.symm.trans he'
    rcases hplace with ⟨u, rfl, hwraps, -⟩ | ⟨u, rfl, -⟩ | ⟨b, rfl, -⟩
    · cases hexits with
      | emptyLoop _ hlc hparent => exact absurd ⟨by rw [hlc]; rfl, hparent⟩ hwraps
    · cases hexits with
      | emptyLoop _ hlc _ => cases hlc
    · cases hexits with
      | emptyLoop _ hlc _ => cases hlc
  | branch he' _ _ | ends he' _ | child he' _ _ _ =>
    cases he.symm.trans he'
    rcases hplace with ⟨u, hu, -, -⟩ | ⟨u, hu, -⟩ | ⟨b, hb, -⟩
    · cases hu
    · cases hu
    · cases hb

/-! ## Who else may complete it -/

/-- What holds of all pools of a run. -/
structure Pool.Sound (d : ProcessDefinition) (P : Pool) : Prop where
  kindred : P.Kindred d
  justified : P.Justified d
  tagged : P.Always (Token.Tagged d)

theorem Pool.Sound.turned (hP : P.Coherent [t]) (h : P.Sound d) (hturned : Turned d P t P') :
    P'.Sound d := by
  obtain ⟨Q, origins, hturn, hmade⟩ := hturned
  refine ⟨hturn.kindred hP h.kindred hmade, (h.justified.turn hturn).spawned hmade, ?_⟩
  exact Always.turned (fun _ _ => Token.Tagged.of_bare)
    (fun _ _ _ _ _ hP hborn hx => Token.tagged_of_born hP hborn hx) hP h.tagged hturn hmade

theorem Pool.Sound.commanded {command : EngineCommand} (hP : P.Coherent []) (h : P.Sound d)
    (hc : Commanded d P command P') : P'.Sound d :=
  ⟨hc.kindred hP h.kindred, h.justified.stillWaiting hc.stillWaiting,
    Always.commanded (fun _ _ => Token.Tagged.of_bare)
      (fun _ _ _ _ _ hP hborn hx => Token.tagged_of_born hP hborn hx) hP h.tagged hc⟩

theorem Trace.sound {steps : List Step} (h : Trace d steps ctx) : ctx.pool.Sound d := by
  refine h.maintains (I := Pool.Sound d) (C := fun _ => True) (fun _ => ?_)
    (fun _ _ _ _ _ hI => ⟨hI.kindred, hI.justified, hI.tagged⟩) ?_ ?_ fun _ _ => trivial
  · exact ⟨fun _ hc => absurd hc List.not_mem_nil, fun _ hx => absurd hx List.not_mem_nil,
      fun _ hx => absurd hx List.not_mem_nil⟩
  · exact fun _ _ _ _ hcoh _ hI hcmd => hI.commanded hcoh hcmd
  · exact fun _ _ _ _ hcoh hI hturned =>
      Pool.Sound.turned hcoh ⟨hI.kindred, hI.justified, hI.tagged⟩ hturned

/-- A token that waits for an event or a user has no children. -/
theorem Token.Justified.childless_of_alert {x : Token} {c : WaitCondition} (h : x.Justified d)
    (hfor : x.waitingFor = some c) (hc : c.type ≠ .external) : ¬ x.MayParent d := by
  obtain ⟨e, he, hcond, -⟩ := h
  rw [hfor] at hcond
  have hplace := Token.conditionAt_cases hcond hc
  intro hmay
  cases hmay with
  | loop he' hloop hparent =>
    cases he.symm.trans he'
    cases (Token.conditionAt_of_wraps ⟨hloop, hparent⟩).symm.trans hcond
    exact hc rfl
  | throwEvent he' | endEvent he' | gateway he' =>
    cases he.symm.trans he'
    rcases hplace with ⟨u, hu, -, -⟩ | ⟨u, hu, -⟩ | ⟨b, hb, -⟩
    · cases hu
    · cases hu
    · cases hb

/-- The tokens that a turn may complete: the one in hand, its parent, the one that waits at its
sub-process, and the one at the cancel boundary event that fires. -/
def Pool.MayComplete (d : ProcessDefinition) (P : Pool) (t x : Token) : Prop :=
  x.id = t.id ∨ t.parentTokenId = some x.id ∨ truthy t.subProcessInstanceId = some x.elementId ∨
    ∃ v ∈ P.firedInTurn d t, v.id = x.id

theorem Pool.mayComplete_ofPlace (P : Pool) (t : Token) : OfPlace (P.MayComplete d t) := by
  intro x y hxy h
  unfold Pool.MayComplete at h ⊢
  rw [← Token.id_of_bare hxy, ← Token.elementId_of_bare hxy]
  exact h

/-- A token that waits for an event or a user is completed in its own right, or by the cancel
boundary event that fires. -/
theorem Pool.MayComplete.of_alert {x : Token} {c : WaitCondition} (hsound : P.Sound d)
    (ht : P.Holds t) (hx : x ∈ P.tokens) (hw : x.status = .waiting) (hfor : x.waitingFor = some c)
    (hc : c.type ≠ .external) (h : P.MayComplete d t x) :
    x.id = t.id ∨ ∃ v ∈ P.firedInTurn d t, v.id = x.id := by
  have hjust := hsound.justified x hx hw
  rcases h with hself | hparent | htag | hfired
  · exact .inl hself
  · obtain ⟨v, hv, hvt⟩ := Pool.holds_iff.1 ht
    have hmay := hsound.kindred v hv x hx ((Token.parent_of_bare hvt).trans hparent)
    exact absurd hmay (hjust.childless_of_alert hfor hc)
  · obtain ⟨e, he, hsub⟩ := hsound.tagged.holds (fun _ _ => Token.Tagged.of_bare) ht _ htag
    obtain ⟨e', he', hcond, -⟩ := hjust
    cases he.symm.trans he'
    rw [hfor] at hcond
    rcases Token.conditionAt_cases hcond hc with ⟨u, rfl, -, -⟩ | ⟨u, rfl, -⟩ | ⟨b, rfl, -⟩
    · cases hsub
    · cases hsub
    · cases hsub
  · exact .inr hfired

/-- A token that waits for an event or a user does so after the turn of another one, or is
cancelled. -/
theorem Turn.keepsAlert {x : Token} {c : WaitCondition} (hP : P.ids.Nodup) (hsound : P.Sound d)
    (ht : P.Holds t) (h : Turn d P t Q origins) (hx : x ∈ P.tokens) (hid : x.id ≠ t.id)
    (hw : x.status = .waiting) (hfor : x.waitingFor = some c) (hc : c.type ≠ .external)
    (hfired : ∀ v ∈ P.firedInTurn d t, v.id ≠ x.id) :
    ∃ y ∈ Q.tokens, y.id = x.id ∧
      (y.status = .cancelled ∨ y.status = .waiting ∧ y.waitingFor = some c) := by
  obtain ⟨y, hy, hbare⟩ := (h.frame hP ht).exists_mem hx
  have hyid : y.id = x.id := Token.id_of_bare hbare
  obtain ⟨z, hz, hzy⟩ := h.fates_of (P.mayComplete_ofPlace t) (.inl rfl)
    (fun p hp => .inr (.inl hp)) (fun _ hx => .inr (.inr (.inl hx)))
    (fun v hv => .inr (.inr (.inr ⟨v, hv, rfl⟩))) hP ht hy (hyid ▸ hid)
  obtain rfl : z = x := Pool.eq_of_id hP hz hx ((Token.id_of_bare hzy.bare).trans hyid)
  refine ⟨y, hy, hyid, ?_⟩
  rcases hzy.status with ⟨hs, hyfor⟩ | ⟨hs, -⟩ | ⟨-, hmay⟩
  · exact .inr ⟨hs.trans hw, hyfor.trans hfor⟩
  · exact .inl hs
  · rcases hmay.of_alert hsound ht hz hw hfor hc with hself | ⟨v, hv, hvid⟩
    · exact absurd hself hid
    · exact absurd hvid (hfired v hv)

end NexusWorkflow
