import NexusWorkflow.Game.Coherence

/-!
# Parents

Only three kinds of token have children: one at a multi-instance activity, one at an event that
starts compensation handlers, and one at an event-based gateway.
-/

namespace NexusWorkflow

variable {d : ProcessDefinition} {P Q P' : Pool} {origins : List Origin}

/-- The token stands where a token may get children. -/
inductive Token.MayParent (d : ProcessDefinition) (p : Token) : Prop
  | loop {e : BpmnFlowElement} (he : d.getElement p.elementId = .ok e)
      (hloop : e.loopCharacteristics.isSome) (hparent : p.parentTokenId = none) : p.MayParent d
  | throwEvent {e : EventElement}
      (he : d.getElement p.elementId = .ok (.intermediateThrowEvent e)) : p.MayParent d
  | endEvent {e : EventElement} (he : d.getElement p.elementId = .ok (.endEvent e)) : p.MayParent d
  | gateway {g : GatewayElement} (he : d.getElement p.elementId = .ok (.gateway g)) : p.MayParent d

theorem Token.MayParent.of_bare {p x : Token} (h : p.MayParent d) (hb : x.bare = p.bare) :
    x.MayParent d := by
  have hplace := Token.elementId_of_bare hb
  cases h with
  | loop he hloop hparent =>
    exact .loop (hplace ▸ he) hloop ((Token.parent_of_bare hb).trans hparent)
  | throwEvent he => exact .throwEvent (hplace ▸ he)
  | endEvent he => exact .endEvent (hplace ▸ he)
  | gateway he => exact .gateway (hplace ▸ he)

/-- The parents in the pool are tokens that may get children. -/
def Pool.Kindred (d : ProcessDefinition) (P : Pool) : Prop :=
  ∀ c ∈ P.tokens, ∀ p ∈ P.tokens, c.parentTokenId = some p.id → p.MayParent d

theorem Pool.Kindred.frame (h : P.Kindred d) (hf : Frame P Q) : Q.Kindred d := by
  intro c hc p hp hcp
  obtain ⟨x, hx, hxc⟩ := hf.exists_mem' hc
  obtain ⟨y, hy, hyp⟩ := hf.exists_mem' hp
  have hparent : x.parentTokenId = some y.id := by
    rw [Token.parent_of_bare hxc, hcp, Token.id_of_bare hyp]
  exact (h x hx y hy hparent).of_bare hyp.symm

/-- The parent of a token, looked up. -/
theorem Pool.Kindred.of_get? (h : P.Kindred d) {c p : Token} (hc : P.Holds c)
    (hp : c.parentTokenId.bind P.get? = some p) : p.MayParent d := by
  obtain ⟨x, hx, hxc⟩ := Pool.holds_iff.1 hc
  obtain ⟨id, hid, hget⟩ := Option.bind_eq_some_iff.1 hp
  obtain ⟨hm, rfl⟩ := Pool.get?_eq_some hget
  exact h x hx p hm ((Token.parent_of_bare hxc).trans hid)

/-! ## The parents of new tokens -/

/-- The token that becomes the parent of a new one. -/
def Origin.parentToken : Origin → Option Token
  | .child parent _ => some parent
  | .handler source _ _ => some source
  | .branch gate _ => some gate
  | _ => none

theorem Origin.parent_eq (o : Origin) : o.parent = o.parentToken.map (·.id) := by cases o <;> rfl

/-- Whatever becomes a parent is in the pool, and may get children. -/
def Rooted (d : ProcessDefinition) (P : Pool) (origins : List Origin) : Prop :=
  ∀ o ∈ origins, ∀ p, o.parentToken = some p → P.Holds p ∧ p.MayParent d

theorem Rooted.nil : Rooted d P [] := by simp [Rooted]

theorem Rooted.onFlows (src : Token) (flows : List String) : Rooted d P (onFlows src flows) := by
  intro o ho p hp
  obtain ⟨flowId, -, rfl⟩ := List.mem_map.1 ho
  cases hp

theorem Rooted.of_parent {p : Token} (hp : P.Holds p) (hmay : p.MayParent d)
    (h : ∀ o ∈ origins, o.parentToken = none ∨ o.parentToken = some p) : Rooted d P origins := by
  intro o ho x hx
  rcases h o ho with hno | hsome
  · rw [hno] at hx
    cases hx
  · rw [hsome] at hx
    cases hx
    exact ⟨hp, hmay⟩

theorem Rooted.handlersFor {find : String → Option BpmnFlowElement} {source : Token}
    {tag : Option String} {records : List CompensationRecord} (hs : P.Holds source)
    (hmay : source.MayParent d) : Rooted d P (handlersFor find source tag records) := by
  refine .of_parent hs hmay fun o ho => Or.inr ?_
  obtain ⟨r, -, hr⟩ := List.mem_filterMap.1 ho
  obtain ⟨e, -, rfl⟩ := Option.map_eq_some_iff.1 hr
  rfl

theorem Rooted.frame (h : Rooted d P origins) (hf : Frame P Q) : Rooted d Q origins :=
  fun o ho p hp => ⟨hf.holds (h o ho p hp).1, (h o ho p hp).2⟩

theorem Pool.Kindred.spawned (hnd : P.ids.Nodup) (hn : P.Numbered) (h : P.Kindred d)
    (hroots : Rooted d P origins)
    (hparents : ∀ c ∈ P.tokens, ∀ p, c.parentTokenId = some p → p ∈ P.ids)
    (hmade : Spawned (Made d) origins P P') : P'.Kindred d := by
  obtain ⟨news, n, hR, hfresh, rfl⟩ := hmade
  have hold : ∀ id ∈ P.ids, ∀ p ∈ news, p.id ≠ id := by
    intro id hid p hp heq
    obtain ⟨x, hx, rfl⟩ := List.mem_map.1 hid
    have := hn x hx
    have := hfresh.ge p hp
    omega
  intro c hc p hp hcp
  rcases List.mem_append.1 hc with hc | hc
  · rcases List.mem_append.1 hp with hp | hp
    · exact h c hc p hp hcp
    · exact absurd rfl (hold p.id (hparents c hc _ hcp) p hp)
  · obtain ⟨o, ho, hoc⟩ := exists_of_forall₂_right hR hc
    rw [hoc.parent, o.parent_eq] at hcp
    obtain ⟨q, hq, hqp⟩ := Option.map_eq_some_iff.1 hcp
    obtain ⟨hholds, hmay⟩ := hroots o ho q hq
    rcases List.mem_append.1 hp with hp | hp
    · obtain ⟨y, hy, hyq⟩ := Pool.holds_iff.1 hholds
      have hid : y.id = p.id := (Token.id_of_bare hyq).trans hqp
      exact hmay.of_bare (Pool.eq_of_id hnd hy hp hid ▸ hyq)
    · exact absurd hqp.symm (hold q.id hholds.mem_ids p hp)

/-! ## The rules -/

theorem SubEnd.rooted {s : String} (h : SubEnd d s P Q origins) (R : Pool) :
    Rooted d R origins := by
  cases h with
  | busy _ | orphan _ _ => exact .nil
  | complete _ _ _ => exact .onFlows _ _

theorem FireCancel.rooted {s : String} {outer : Token} (h : FireCancel d s outer P Q origins)
    (R : Pool) : Rooted d R origins := by
  cases h with
  | none _ | unarmed _ _ => exact .nil
  | fire _ _ => exact .onFlows _ _

theorem Ends.rooted {R : Pool} {t : Token} {e : EventElement} (ht : R.Holds t)
    (he : d.getElement t.elementId = .ok (.endEvent e)) (h : Ends d t P e Q origins) :
    Rooted d R origins := by
  cases h with
  | cancelTop _ _ | terminate _ | last _ _ _ _ _ | more _ _ _ _ => exact .nil
  | inner _ _ _ h => exact h.rooted R
  | cancel _ _ h =>
    cases h with
    | compensate _ => exact .handlersFor ht (.endEvent he)
    | orphan _ _ => exact .nil
    | fire _ _ hfire => exact hfire.rooted R

theorem ChildDone.rooted {c : Token} {e : BpmnFlowElement} {lc : MultiInstanceLoopCharacteristics}
    (hP : P.Kindred d) (hc : P.Holds c) (h : ChildDone c e lc P Q origins) :
    Rooted d P origins := by
  cases h with
  | orphan _ | noLoop _ _ _ | wait _ _ _ => exact .nil
  | lastItem _ _ _ | condition _ _ _ | allDone _ _ _ => exact .onFlows _ _
  | next hp _ _ _ =>
    refine .of_parent (Pool.holds_of_get? hp) (hP.of_get? hc hp) fun o ho => Or.inr ?_
    rw [List.mem_singleton.1 ho]
    rfl

theorem HandlerDone.rooted {h throwToken : Token} (hd : HandlerDone d h throwToken P Q origins) :
    Rooted d P origins := by
  cases hd with
  | wait _ | orphan _ _ _ _ _ => exact .nil
  | fire _ _ _ _ _ hfire => exact hfire.rooted P
  | advance _ _ _ => exact .onFlows _ _

theorem Parks.rooted {t : Token} {e : BpmnFlowElement} {condition : WaitCondition}
    {loopState : Option LoopState} {records : List CompensationRecord} (ht : P.Holds t)
    (he : d.getElement t.elementId = .ok e)
    (h : Parks d P t e condition loopState origins records) : Rooted d P origins := by
  have hboundaries : ∀ l : List BoundaryEventElement, ∀ o ∈ l.map (Origin.boundary t),
      o.parentToken = none := by
    intro l o ho
    obtain ⟨b, -, rfl⟩ := List.mem_map.1 ho
    rfl
  cases h with
  | serviceTask _ _ | userTask _ _ =>
    intro o ho p hp
    rw [hboundaries _ o ho] at hp
    cases hp
  | scriptTask _ _ | catchEvent _ _ | boundaryEvent _ _ => exact .nil
  | sequential _ hlc hparent _ _ =>
    refine .of_parent ht (.loop he (by simp [hlc]) hparent) fun o ho => Or.inr ?_
    rw [List.mem_singleton.1 ho]
    rfl
  | parallel _ hlc hparent _ _ =>
    refine .of_parent ht (.loop he (by simp [hlc]) hparent) fun o ho => Or.inr ?_
    rw [List.eq_of_mem_replicate ho]
    rfl
  | subProcess _ _ _ _ _ =>
    intro o ho p hp
    rcases List.mem_append.1 ho with ho | ho
    · split_ifs at ho
      · rw [hboundaries _ o ho] at hp
        cases hp
      · cases ho
    · rw [List.mem_singleton.1 ho] at hp
      cases hp
  | throwEvent _ _ _ => exact .handlersFor ht (.throwEvent he)

theorem Turn.rooted {t : Token} (hP : P.Kindred d) (hnd : P.ids.Nodup) (ht : P.Holds t)
    (h : Turn d P t Q origins) : Rooted d Q origins := by
  refine Rooted.frame ?_ (h.frame hnd ht)
  cases h with
  | pass _ _ _ => exact .onFlows _ _
  | park he hpark => exact hpark.rooted ht he
  | branch he _ _ =>
    refine .of_parent ht (.gateway he) fun o ho => Or.inr ?_
    obtain ⟨flow, -, rfl⟩ := List.mem_map.1 ho
    rfl
  | ends he hends => exact hends.rooted ht he
  | child _ _ _ hdone => exact hdone.rooted hP ht

theorem Deed.rooted {command : EngineCommand} (hP : P.Kindred d) (hnd : P.ids.Nodup)
    (h : Deed d P command Q origins) : Rooted d Q origins := by
  have hcomplete : ∀ {R : Pool} {w : Token}, Frame P R → R.Holds w → Complete d R w Q origins →
      Rooted d Q origins := by
    intro R w hf hw hc
    refine Rooted.frame ?_ (hc.frame (hf.nodup hnd) hw)
    show Rooted d R.autoResume origins
    cases hc with
    | child _ _ h => exact ChildDone.rooted (hP.frame (hf.trans (.autoResume R))) hw h
    | handler _ _ h => exact h.rooted
    | plain _ _ _ => exact .onFlows _ _
  cases h with
  | startProcess _ _ _ =>
    intro o ho p hp
    rw [List.mem_singleton.1 ho] at hp
    cases hp
  | completeServiceTask _ hw _ h => exact hcomplete (.refl P) (Pool.holds_of_mem hw) h
  | completeUserTask _ _ hw _ h => exact hcomplete (.refl P) (Pool.holds_of_mem hw) h
  | @fireCatch w hw _ _ _ _ h =>
    have hframe := Frame.clearSiblings P w
    exact hcomplete hframe (hframe.holds (Pool.holds_of_mem hw)) h
  | failCaught _ _ _ _ | fireInterrupting _ _ _ _ _ | fireBoundary _ _ _ _ _ => exact .onFlows _ _
  | failUncaught _ _ _ _ | suspendInstance _ | resumeInstance _ | cancelInstance => exact .nil

/-! ## Every step keeps the pool kindred -/

theorem Turn.kindred {t : Token} (hP : P.Coherent [t]) (hk : P.Kindred d)
    (hturn : Turn d P t Q origins) (hmade : Spawned (Made d) origins Q P') : P'.Kindred d := by
  have ht := hP.holds List.mem_cons_self
  have hframe := hturn.frame hP.nodup ht
  have hQ := (hturn.ready hP).coherent
  exact (hk.frame hframe).spawned hQ.nodup hQ.numbered (hturn.rooted hk hP.nodup ht)
    (fun c hc p hp => (hQ.parents c hc p hp).1) hmade

theorem Resumes.kindred {targets : List Token} (hP : P.Coherent []) (hk : P.Kindred d)
    (h : Resumes d targets P P') : P'.Kindred d := by
  induction h with
  | nil _ => exact hk
  | skip _ _ _ ih => exact ih hP hk
  | @resume w rest P P' hw hwaiting Q mid origins hresume hmade _ ih =>
    have hready := hresume.ready hP hw hwaiting
    have hframe := hresume.frame hP.nodup (Pool.holds_of_mem hw)
    have hQ := hready.coherent
    obtain ⟨-⟩ := hresume
    refine ih (hready.spawned hmade) ?_
    exact (hk.frame hframe).spawned hQ.nodup hQ.numbered (.onFlows _ _)
      (fun c hc p hp => (hQ.parents c hc p hp).1) hmade

theorem Commanded.kindred {command : EngineCommand} (hP : P.Coherent []) (hk : P.Kindred d)
    (h : Commanded d P command P') : P'.Kindred d := by
  cases h with
  | deed hd hmade =>
    have hQ := (hd.ready hP).coherent
    exact (hk.frame (hd.frame hP.nodup)).spawned hQ.nodup hQ.numbered (hd.rooted hk hP.nodup)
      (fun c hc p hp => (hQ.parents c hc p hp).1) hmade
  | deliverMessage _ _ h | broadcastSignal _ _ h => exact h.kindred hP hk

end NexusWorkflow
