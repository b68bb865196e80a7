import NexusWorkflow.Game.Fate
import NexusWorkflow.Run.Diagram
import NexusWorkflow.Run.Reload

/-!
# The race of an event-based gateway

The branches of one activation have the token that reached the gateway as their parent.  The first
branch whose event arrives is completed and the others are cancelled, whatever else the same command
resumes.  The gateway is validated by the flows that it lists, but a branch is started on every flow
that has the gateway as its source.
-/

namespace NexusWorkflow

open ExecutionContext

variable {d : ProcessDefinition} {P Q P' : Pool} {hand : Option Token} {origins : List Origin}
  {t w x b : Token}

/-! ## Branches -/

/-- The type of the element of a given id. -/
def ProcessDefinition.typeAt (d : ProcessDefinition) (id : String) : Option BpmnElementType :=
  (d.getElement id).toOption.map (·.type)

/-- The token stands at an event-based gateway. -/
def Token.AtGate (d : ProcessDefinition) (t : Token) : Prop :=
  d.typeAt t.elementId = some .eventBasedGateway

/-- The token stands at an intermediate catch event. -/
def Token.AtCatch (d : ProcessDefinition) (t : Token) : Prop :=
  t.elementType = .intermediateCatchEvent ∧ d.typeAt t.elementId = some .intermediateCatchEvent

/-- The elements have distinct ids, no boundary event is attached to a catch event, and all flows
that start at an event-based gateway which passes its validation lead to catch events. -/
@[mk_iff]
structure ProcessDefinition.Racing (d : ProcessDefinition) : Prop where
  ids : (d.allElements.map (·.id)).Nodup
  hosts : ∀ e ∈ d.allElements, ∀ b ∈ e.boundary?,
    d.typeAt b.attachedToRef ≠ some .intermediateCatchEvent
  branches : ∀ e ∈ d.allElements, ∀ g ∈ e.gateway?, g.type = .eventBased →
    (validateEventBasedGateway g d).toOption.isSome →
      ∀ flow ∈ d.getOutgoingFlows g.id, ∀ type ∈ d.typeAt flow.targetRef,
        type = .intermediateCatchEvent

instance : Decidable d.Racing := decidable_of_iff _ (ProcessDefinition.racing_iff d).symm

theorem typeAt_of_getElement {id : String} {e : BpmnFlowElement} (he : d.getElement id = .ok e) :
    d.typeAt id = some e.type := by
  simp [ProcessDefinition.typeAt, he, Except.toOption]

theorem Token.AtCatch.getElement (h : t.AtCatch d) :
    ∃ e, d.getElement t.elementId = .ok (.intermediateCatchEvent e) := by
  obtain ⟨-, htype⟩ := h
  unfold ProcessDefinition.typeAt at htype
  cases he : d.getElement t.elementId with
  | error _ => simp [he, Except.toOption] at htype
  | ok e =>
    have htype : e.type = .intermediateCatchEvent := by simpa [he, Except.toOption] using htype
    cases e with
    | intermediateCatchEvent e => exact ⟨e, rfl⟩
    | gateway g =>
      unfold BpmnFlowElement.type at htype
      cases hg : g.type <;> simp [hg] at htype
    | _ => cases htype

theorem Token.AtGate.getElement (h : t.AtGate d) :
    ∃ g, d.getElement t.elementId = .ok (.gateway g) ∧ g.type = .eventBased := by
  unfold AtGate ProcessDefinition.typeAt at h
  cases he : d.getElement t.elementId with
  | error _ => simp [he, Except.toOption] at h
  | ok e =>
    have htype : e.type = .eventBasedGateway := by simpa [he, Except.toOption] using h
    cases e with
    | gateway g =>
      unfold BpmnFlowElement.type at htype
      cases hg : g.type <;> simp [hg] at htype
      exact ⟨g, rfl, hg⟩
    | _ => cases htype

theorem Token.AtCatch.of_bare (h : x.AtCatch d) (hb : x.bare = t.bare) : t.AtCatch d := by
  unfold AtCatch at h ⊢
  rw [← elementId_of_bare hb, ← elementType_of_bare hb]
  exact h

theorem Token.AtGate.of_bare (h : x.AtGate d) (hb : x.bare = t.bare) : t.AtGate d := by
  unfold AtGate at h ⊢
  rw [← elementId_of_bare hb]
  exact h

theorem Token.AtCatch.childless (h : t.AtCatch d) : ¬ t.MayParent d := by
  obtain ⟨e, he⟩ := h.getElement
  intro hmay
  cases hmay with
  | loop he' hloop _ =>
    cases he.symm.trans he'
    cases hloop
  | throwEvent he' | endEvent he' | gateway he' => cases he.symm.trans he'

/-- The token is a branch of an event-based gateway. -/
def Pool.Branch (d : ProcessDefinition) (P : Pool) (b : Token) : Prop :=
  ∃ p ∈ P.tokens, b.parentTokenId = some p.id ∧ p.AtGate d

theorem Pool.Branch.frame (h : P.Branch d b) (hf : Frame P Q) (hb : b.bare = x.bare) :
    Q.Branch d x := by
  obtain ⟨p, hp, hparent, hgate⟩ := h
  obtain ⟨q, hq, hpq⟩ := hf.exists_mem hp
  refine ⟨q, hq, ?_, hgate.of_bare hpq.symm⟩
  rw [← Token.parent_of_bare hb, hparent, Token.id_of_bare hpq]

/-! ## What is never completed on the side -/

theorem ProcessDefinition.getElement_of_mem (hd : (d.allElements.map (·.id)).Nodup)
    {e : BpmnFlowElement} (he : e ∈ d.allElements) {r : BpmnFlowElement}
    (hr : d.getElement e.id = .ok r) : r = e :=
  List.inj_on_of_nodup_map hd (ProcessDefinition.mem_allElements hr) he
    (ProcessDefinition.getElement_id hr)

/-- A token at a catch event completes in its own right only. -/
theorem Finishes.of_catch (hd : d.Racing) (hk : P.Kindred d)
    (htags : P.Always (Token.Tagged d)) (hw : P.Holds w) (hb : b ∈ P.tokens) (hcatch : b.AtCatch d)
    (h : Finishes d w b) : b.id = w.id := by
  obtain ⟨e, he⟩ := hcatch.getElement
  cases h with
  | self hid => exact hid
  | parent hparent =>
    obtain ⟨x, hx, hxw⟩ := Pool.holds_iff.1 hw
    have hxb : x.parentTokenId = some b.id := (Token.parent_of_bare hxw).trans hparent
    exact absurd (hk x hx b hb hxb) hcatch.childless
  | outer htag hid =>
    obtain ⟨sub, hsub, hissub⟩ := htags.holds (fun _ _ => Token.Tagged.of_bare) hw _ htag
    rw [← hid, he] at hsub
    rw [← Except.ok.inj hsub] at hissub
    cases hissub
  | @boundary s boundary hboundary hid =>
    obtain ⟨hmem, -⟩ := ProcessDefinition.mem_findBoundariesFor hboundary
    rw [hid] at he
    cases ProcessDefinition.getElement_of_mem hd.ids hmem he

/-! ## The race is decided at once -/

/-- Branches stand at catch events, and once a branch is completed, the others are cancelled for
good. -/
structure Pool.Raced (d : ProcessDefinition) (P : Pool) : Prop where
  tagged : P.Always (Token.Tagged d)
  branches : ∀ b ∈ P.tokens, P.Branch d b → b.AtCatch d
  decided : ∀ b ∈ P.tokens, P.Branch d b → b.status = .completed → ∀ x ∈ P.tokens,
    x.parentTokenId = b.parentTokenId → x.id ≠ b.id →
      x.status = .cancelled ∧ x.id ∉ P.pending.map (·.id)

/-- A branch that has been there, or a new one of the gateway in hand. -/
theorem Pool.Raced.branch_spawned (hd : d.Racing) (hQ : Q.Coherent [])
    (hbranches : ∀ b ∈ Q.tokens, Q.Branch d b → b.AtCatch d) (hborn : AllBorn d Q hand origins)
    (hmade : Spawned (Made d) origins Q P') (hb : b ∈ P'.tokens) (h : P'.Branch d b) :
    (b ∈ Q.tokens ∧ Q.Branch d b) ∨ (b.status = .active ∧ b.AtCatch d ∧
      ∃ gate, hand = some gate ∧ b.parentTokenId = some gate.id) := by
  obtain ⟨p, hp, hparent, hgate⟩ := h
  obtain ⟨g, hg, hbased⟩ := hgate.getElement
  obtain ⟨news, n, hR, hfresh, rfl⟩ := hmade
  have hnew : ∀ y ∈ news, y.id ∉ Q.ids := by
    intro y hy hid
    obtain ⟨z, hz, hzy⟩ := List.mem_map.1 hid
    have hlt := hQ.numbered z hz
    have hge := hfresh.ge y hy
    omega
  rcases List.mem_append.1 hb with hb | hb
  · -- the parent of an old token is old
    refine .inl ⟨hb, p, ?_, hparent, hgate⟩
    rcases List.mem_append.1 hp with hp | hp
    · exact hp
    · exact absurd (hQ.parents b hb _ hparent).1 (hnew p hp)
  · obtain ⟨o, ho, hob⟩ := exists_of_forall₂_right hR hb
    refine .inr ⟨hfresh.active b hb, ?_⟩
    -- the token that the origin names is the gateway's
    have hsource : ∀ source : Token, Q.Holds source → b.parentTokenId = some source.id →
        source.AtGate d := by
      intro source hholds hsource
      obtain ⟨y, hy, hbare⟩ := Pool.holds_iff.1 hholds
      have hid : y.id = p.id := by
        rw [Token.id_of_bare hbare]
        exact Option.some.inj (hsource.symm.trans hparent)
      rcases List.mem_append.1 hp with hp | hp
      · rw [Pool.eq_of_id hQ.nodup hy hp hid] at hbare
        exact hgate.of_bare hbare
      · exact absurd (hid ▸ List.mem_map_of_mem hy) (hnew p hp)
    cases hborn o ho with
    | start | leaves _ _ _ | closes _ _ _ _ _ _ | caught _ _ _ | fires _ _ _ _ | arms _ _
    | enters _ _ =>
      rw [hob.parent] at hparent
      cases hparent
    | @item q e hq he hloop =>
      obtain ⟨g', hg', -⟩ := (hsource q hq hob.parent).getElement
      cases he.symm.trans hg'
      cases hloop
    | @next q c e hq hc hcq he hloop =>
      have hgateq := hsource q hq hob.parent
      obtain ⟨y, hy, hyc⟩ := Pool.holds_iff.1 hc
      obtain ⟨z, hz, hzq⟩ := Pool.holds_iff.1 hq
      have hbranch : Q.Branch d y := by
        refine ⟨z, hz, ?_, hgateq.of_bare hzq.symm⟩
        rw [Token.parent_of_bare hyc, hcq, Token.id_of_bare hzq]
      obtain ⟨e', he'⟩ := (hbranches y hy hbranch).getElement
      rw [Token.elementId_of_bare hyc] at he'
      cases he.symm.trans he'
      cases hloop
    | @compensates source place e tag hholds hat hevent _ _ =>
      obtain ⟨g', hg', -⟩ := (hsource source hholds hob.parent).getElement
      cases hat.symm.trans hg'
      cases hevent
    | @branch gate g' flow hhand hholds he hg' hvalid hflow =>
      refine ⟨?_, gate, hhand, hob.parent⟩
      obtain ⟨target, htarget, heq⟩ := hob
      have helement : b.elementType = target.type ∧ b.elementId = target.id := by
        rw [heq]
        exact ⟨rfl, rfl⟩
      have htype : target.type = .intermediateCatchEvent := by
        have hid := ProcessDefinition.getElement_id he
        refine hd.branches _ (ProcessDefinition.mem_allElements he) g' rfl hg' (by rw [hvalid]; rfl)
          flow hflow _ ?_
        rw [typeAt_of_getElement htarget]
        rfl
      have hplace : target.id = flow.targetRef := ProcessDefinition.getElement_id htarget
      refine ⟨helement.1.trans htype, ?_⟩
      rw [helement.2, hplace, typeAt_of_getElement htarget, htype]

theorem Turn.waiting_of_catch (hnd : P.ids.Nodup) (ht : P.Holds t) (hcatch : t.AtCatch d)
    (h : Turn d P t Q origins) (hx : x ∈ Q.tokens) (hid : x.id = t.id) : x.status = .waiting := by
  obtain ⟨e, he⟩ := hcatch.getElement
  have hfinish := (Frame.finish hnd ht).nodup hnd
  cases h with
  | pass he' hexits _ =>
    cases he.symm.trans he'
    cases hexits with
    | emptyLoop _ hlc _ => cases hlc
  | @park _ _ condition loopState _ _ _ =>
    have hself : { t with status := .waiting, waitingFor := some condition, loopState } ∈
        (P.park t condition loopState).tokens := by
      obtain ⟨y, hy, hbare⟩ := Pool.holds_iff.1 ht
      exact List.mem_map.2 ⟨y, hy, if_pos (Token.id_of_bare hbare)⟩
    have hids : (P.park t condition loopState).ids.Nodup :=
      (Frame.put hnd (t := { t with status := .waiting, waitingFor := some condition, loopState })
        ht).nodup hnd
    rw [Pool.eq_of_id hids hx hself hid]
  | branch he' _ _ | ends he' _ | child he' _ _ _ => cases he.symm.trans he'

/-- A turn decides no race. -/
theorem Pool.Raced.turned (hd : d.Racing) (hP : P.Coherent [t]) (hk : P.Kindred d)
    (h : (P.push t).Raced d) (hturned : Turned d P t P') : P'.Raced d := by
  obtain ⟨Q, origins, hturn, hmade⟩ := hturned
  have ht := hP.holds List.mem_cons_self
  have hframe := hturn.frame hP.nodup ht
  have hQ := (hturn.ready hP).coherent
  have hborn := hturn.born hP.nodup ht
  have hbranches : ∀ b ∈ Q.tokens, Q.Branch d b → b.AtCatch d := by
    intro b hb hbranch
    obtain ⟨y, hy, hyb⟩ := hframe.exists_mem' hb
    have hold : P.Branch d y := hbranch.frame hframe.symm hyb.symm
    exact (h.branches y hy hold).of_bare hyb
  have htagged : P.Always (Token.Tagged d) := h.tagged
  refine ⟨Always.turned (fun _ _ => Token.Tagged.of_bare)
    (fun _ _ _ _ _ hP hborn hx => Token.tagged_of_born hP hborn hx) hP htagged hturn hmade,
    fun b hb hbranch => ?_, fun b hb hbranch hcompleted x hx hsame hne => ?_⟩
  · rcases Pool.Raced.branch_spawned hd hQ hbranches hborn hmade hb hbranch with
      ⟨hold, hb'⟩ | ⟨-, hcatch, -⟩
    · exact hbranches b hold hb'
    · exact hcatch
  · rcases Pool.Raced.branch_spawned hd hQ hbranches hborn hmade hb hbranch with
      ⟨hold, hb'⟩ | ⟨hactive, -⟩
    rotate_left
    · rw [hactive] at hcompleted
      cases hcompleted
    have hcatch := hbranches b hold hb'
    have hbid : b.id ≠ t.id := by
      intro hid
      obtain ⟨y, hy, hyb⟩ := hframe.exists_mem' hold
      obtain ⟨z, hz, hzt⟩ := Pool.holds_iff.1 ht
      have heq := Pool.eq_of_id hP.nodup hy hz
        ((Token.id_of_bare hyb).trans (hid.trans (Token.id_of_bare hzt).symm))
      have htcatch : t.AtCatch d := hcatch.of_bare (hyb.symm.trans (heq ▸ hzt))
      rw [hturn.waiting_of_catch hP.nodup ht htcatch hold hid] at hcompleted
      cases hcompleted
    obtain ⟨y, hy, hyb⟩ := hturn.fates hP.nodup ht hold hbid
    have hybranch : P.Branch d y := hb'.frame hframe.symm hyb.bare.symm
    have hycatch : y.AtCatch d := hcatch.of_bare hyb.bare.symm
    have hyid : y.id ≠ t.id := Token.id_of_bare hyb.bare ▸ hbid
    rcases hyb.completed hcompleted with hyc | hyc
    rotate_left
    · exact absurd (hyc.of_catch hd hk htagged ht hy hycatch) hyid
    -- the other one is not a new branch, as the parent is not in hand
    have hparent : ∀ p, b.parentTokenId = some p → p ∉ (P.flight [t]).map (·.id) := by
      intro p hp
      exact (hP.parents y hy p ((Token.parent_of_bare hyb.bare).trans hp)).2.2
    have hxbranch : P'.Branch d x := by
      obtain ⟨p, hp, hbp, hgate⟩ := hbranch
      exact ⟨p, hp, hsame.trans hbp, hgate⟩
    rcases Pool.Raced.branch_spawned hd hQ hbranches hborn hmade hx hxbranch with
      ⟨hxold, hxb⟩ | ⟨-, -, gate, hgate, hxgate⟩
    rotate_left
    · cases hgate
      refine absurd (List.mem_map_of_mem ?_) (hparent t.id (hsame.symm.trans hxgate))
      exact List.mem_cons_self
    obtain ⟨z, hz, hzx⟩ := hframe.exists_mem' hxold
    have hzsame : z.parentTokenId = y.parentTokenId := by
      rw [Token.parent_of_bare hzx, hsame, Token.parent_of_bare hyb.bare]
    have hzne : z.id ≠ y.id := by
      rw [Token.id_of_bare hzx, Token.id_of_bare hyb.bare]
      exact hne
    obtain ⟨hcancelled, hpending⟩ := h.decided y hy hybranch hyc z hz hzsame hzne
    rw [Pool.push, List.map_cons, List.mem_cons, not_or] at hpending
    have hzcatch : z.AtCatch d := (hbranches x hxold hxb).of_bare hzx.symm
    have hsettled : P.Settled d z := ⟨hz, .inr hcancelled, hpending.2, hzcatch.childless⟩
    have hafter := (hsettled.turn hP hk hpending.1 hturn).spawned hQ.numbered hmade
    have hP' := (hturn.ready hP).spawned hmade
    have heq : x = z := Pool.eq_of_id hP'.nodup hx hafter.mem (Token.id_of_bare hzx).symm
    rw [heq]
    exact ⟨hcancelled, hafter.notPending⟩

/-! ## Commands -/

/-- What a step of a command handler does to the pool, when it completes tokens that `reach`
chooses. -/
structure Acted (d : ProcessDefinition) (reach : Token → Prop) (P Q : Pool)
    (origins : List Origin) : Prop where
  frame : Frame P Q
  ready : Q.Ready origins
  born : AllBorn d Q none origins
  fates : Fates (fun x => ∃ w ∈ P.tokens, w.status = .waiting ∧ reach w ∧ Finishes d w x) P Q
  keeps : ∀ x ∈ P.tokens, x.Finished → ¬ x.MayParent d → x ∈ Q.tokens
  /-- The siblings of a branch that the step completes are cancelled. -/
  races : ∀ w ∈ P.tokens, P.Branch d w → w.AtCatch d → w.status = .waiting → reach w →
    ∀ x ∈ P.tokens, x.parentTokenId = w.parentTokenId → x.id ≠ w.id → x.status = .waiting →
      { x with status := .cancelled } ∈ Q.tokens

/-- No branch is on its way. -/
def Pool.BranchesRest (d : ProcessDefinition) (P : Pool) : Prop :=
  ∀ b ∈ P.tokens, P.Branch d b → b.id ∉ P.pending.map (·.id)

/-- A step of a command handler decides a race for good. -/
theorem Pool.Raced.acted {reach : Token → Prop} (hd : d.Racing) (hP : P.Coherent [])
    (hk : P.Kindred d) (h : P.Raced d) (hrest : P.BranchesRest d)
    (hacted : Acted d reach P Q origins) (hmade : Spawned (Made d) origins Q P') :
    P'.Raced d ∧ P'.BranchesRest d := by
  have hframe := hacted.frame
  have hQ := hacted.ready.coherent
  have hP' := hacted.ready.spawned hmade
  have hbranches : ∀ b ∈ Q.tokens, Q.Branch d b → b.AtCatch d := by
    intro b hb hbranch
    obtain ⟨y, hy, hyb⟩ := hframe.exists_mem' hb
    exact (h.branches y hy (hbranch.frame hframe.symm hyb.symm)).of_bare hyb
  -- a command starts no branch
  have hold : ∀ b ∈ P'.tokens, P'.Branch d b → b ∈ Q.tokens ∧ Q.Branch d b := by
    intro b hb hbranch
    rcases Pool.Raced.branch_spawned hd hQ hbranches hacted.born hmade hb hbranch with
      hold | ⟨-, -, gate, hgate, -⟩
    · exact hold
    · cases hgate
  have hpending : ∀ x ∈ Q.tokens, x.id ∉ P.pending.map (·.id) → x.id ∉ P'.pending.map (·.id) := by
    intro x hx hnot
    rw [← hframe.pending] at hnot
    exact hmade.notPending (hQ.numbered x hx) hnot
  refine ⟨⟨?_, fun b hb hbranch => ?_, fun b hb hbranch hcompleted x hx hsame hne => ?_⟩,
    fun b hb hbranch => ?_⟩
  · have htagged := h.tagged.frame (fun _ _ => Token.Tagged.of_bare) hframe
    exact htagged.spawned
      (fun o ho x hx => Token.tagged_of_born htagged (hacted.born o ho) hx) hmade
  · obtain ⟨hmem, hb'⟩ := hold b hb hbranch
    exact hbranches b hmem hb'
  · obtain ⟨hbQ, hb'⟩ := hold b hb hbranch
    have hxbranch : P'.Branch d x := by
      obtain ⟨p, hp, hbp, hgate⟩ := hbranch
      exact ⟨p, hp, hsame.trans hbp, hgate⟩
    obtain ⟨hxQ, hx'⟩ := hold x hx hxbranch
    obtain ⟨y, hy, hyb⟩ := hacted.fates b hbQ
    obtain ⟨z, hz, hzx⟩ := hframe.exists_mem' hxQ
    have hybranch : P.Branch d y := hb'.frame hframe.symm hyb.bare.symm
    have hzbranch : P.Branch d z := hx'.frame hframe.symm hzx.symm
    have hycatch := h.branches y hy hybranch
    have hzcatch := h.branches z hz hzbranch
    have hzsame : z.parentTokenId = y.parentTokenId := by
      rw [Token.parent_of_bare hzx, hsame, Token.parent_of_bare hyb.bare]
    have hzne : z.id ≠ y.id := by
      rw [Token.id_of_bare hzx, Token.id_of_bare hyb.bare]
      exact hne
    have hxid := Token.id_of_bare hzx
    have hnot : x.id ∉ P'.pending.map (·.id) := by
      refine hpending x hxQ ?_
      rw [← hxid]
      exact hrest z hz hzbranch
    refine ⟨?_, hnot⟩
    -- the other one is cancelled now, or was before
    have hkept : z.status = .cancelled → x.status = .cancelled := by
      intro hz'
      have hmem := hacted.keeps z hz (.inr hz') hzcatch.childless
      rw [Pool.eq_of_id hQ.nodup hxQ hmem hxid.symm]
      exact hz'
    rcases hyb.completed hcompleted with hyc | ⟨w, hw, hwaiting, hreach, hcompletes⟩
    · exact hkept (h.decided y hy hybranch hyc z hz hzsame hzne).1
    · have hid := hcompletes.of_catch hd hk h.tagged (Pool.holds_of_mem hw) hy hycatch
      obtain rfl := Pool.eq_of_id hP.nodup hy hw hid
      cases hs : z.status with
      | active =>
        have hflight := hP.active z hz hs
        exact absurd (List.mem_map_of_mem hflight) (hrest z hz hzbranch)
      | suspended => exact absurd hs (hP.notSuspended z hz)
      | completed =>
        have hcancelled := (h.decided z hz hzbranch hs y hy hzsame.symm hzne.symm).1
        rw [hwaiting] at hcancelled
        cases hcancelled
      | cancelled => exact hkept hs
      | waiting =>
        have hmem := hacted.races y hy hybranch hycatch hwaiting hreach z hz hzsame hzne hs
        rw [Pool.eq_of_id hQ.nodup hxQ hmem hxid.symm]
  · obtain ⟨hmem, hb'⟩ := hold b hb hbranch
    obtain ⟨y, hy, hyb⟩ := hframe.exists_mem' hmem
    refine hpending b hmem ?_
    rw [← Token.id_of_bare hyb]
    exact hrest y hy (hb'.frame hframe.symm hyb.symm)

/-- The command completes the task of the token: a request or a worker does so, no event. -/
def EngineCommand.completesTask (command : EngineCommand) (w : Token) : Bool :=
  match command with
  | .completeServiceTask id _ | .completeUserTask id _ _ => w.id = id
  | _ => false

/-- No branch is completed as a task. -/
def EngineCommand.LeavesBranches (d : ProcessDefinition) (P : Pool) (command : EngineCommand) :
    Prop :=
  ∀ w ∈ P.tokens, command.completesTask w = true → ¬ P.Branch d w

theorem Pool.Branch.parent (h : P.Branch d b) : b.parentTokenId ≠ none := by
  obtain ⟨p, -, hparent, -⟩ := h
  rw [hparent]
  exact Option.some_ne_none _

theorem Pool.Branch.of_sibling (h : P.Branch d b) (hsame : x.parentTokenId = b.parentTokenId) :
    P.Branch d x := by
  obtain ⟨p, hp, hparent, hgate⟩ := h
  exact ⟨p, hp, hsame.trans hparent, hgate⟩

theorem Deed.acted {command : EngineCommand} (hP : P.Coherent []) (hk : P.Kindred d)
    (h : P.Raced d) (hleaves : command.LeavesBranches d P) (hdeed : Deed d P command Q origins) :
    Acted d (fun w => command.reaches w = true) P Q origins := by
  refine ⟨hdeed.frame hP.nodup, hdeed.ready hP, hdeed.born hP.nodup, hdeed.fates hP.nodup,
    fun x hx hfin hmay => hdeed.keeps hP.nodup hk hx hfin hmay, ?_⟩
  intro w hw hbranch hcatch hwaiting hreach x hx hsame hne hxw
  have hxcatch := h.branches x hx (hbranch.of_sibling hsame)
  have hsame' : ∀ v ∈ P.tokens, w.id = v.id → w = v := fun v hv hid =>
    Pool.eq_of_id hP.nodup hw hv hid
  cases hdeed with
  | startProcess _ _ _ | suspendInstance _ | resumeInstance _ | cancelInstance => cases hreach
  | failCaught _ _ _ _ | failUncaught _ _ _ _ => cases hreach
  | completeServiceTask _ hv _ _ | completeUserTask _ _ hv _ _ =>
    exact absurd hbranch (hleaves w hw hreach)
  | fireInterrupting hv _ htype _ _ | fireBoundary hv _ htype _ _ =>
    rw [← hsame' _ hv (of_decide_eq_true hreach), hcatch.1] at htype
    cases htype
  | @fireCatch v hv _ _ _ _ hcomplete =>
    obtain rfl := hsame' v hv (of_decide_eq_true hreach)
    have hclear := Frame.clearSiblings P w
    have hstays : ({ x with status := .cancelled } : Token).AtCatch d := hxcatch.of_bare rfl
    exact hcomplete.keeps (hclear.nodup hP.nodup) (hk.frame hclear) (mem_clearSiblings_self hv)
      hwaiting (Pool.mem_clearSiblings_waiting hx hbranch.parent hsame hne hxw) (.inr rfl)
      hstays.childless

theorem Resume.acted {v : Token} (hP : P.Coherent []) (hv : v ∈ P.tokens)
    (hvw : v.status = .waiting) (hresume : Resume d P v Q origins) :
    Acted d (fun w => w.id = v.id) P Q origins := by
  have hholds := Pool.holds_of_mem hv
  refine ⟨hresume.frame hP.nodup hholds, hresume.ready hP hv hvw, hresume.born hP.nodup hholds,
    ?_, fun x hx hfin _ => hresume.keeps hP.nodup hv hvw hx hfin, ?_⟩
  · exact (hresume.fates hholds).mono fun x _ hx => ⟨v, hv, hvw, rfl, hx⟩
  · intro w hw hbranch _ _ hreach x hx hsame hne hxw
    obtain rfl := Pool.eq_of_id hP.nodup hw hv hreach
    obtain ⟨-⟩ := hresume
    exact Pool.mem_clearSiblings_waiting (Pool.mem_finish_of_ne hx hne) hbranch.parent hsame hne hxw

theorem Resumes.raced {targets : List Token} (hd : d.Racing) (hP : P.Coherent [])
    (hk : P.Kindred d) (h : P.Raced d) (hrest : P.BranchesRest d)
    (hresumes : Resumes d targets P P') : P'.Raced d ∧ P'.BranchesRest d := by
  induction hresumes with
  | nil _ => exact ⟨h, hrest⟩
  | skip _ _ _ ih => exact ih hP hk h hrest
  | resume hv hvw hresume hmade _ ih =>
    have hacted := hresume.acted hP hv hvw
    obtain ⟨hraced, hrest'⟩ := h.acted hd hP hk hrest hacted hmade
    have hone := Resumes.resume hv hvw hresume hmade (.nil _)
    exact ih (hacted.ready.spawned hmade) (hone.kindred hP hk) hraced hrest'

theorem Commanded.raced {command : EngineCommand} (hd : d.Racing) (hP : P.Coherent [])
    (hpending : P.pending = []) (hk : P.Kindred d) (h : P.Raced d)
    (hleaves : command.LeavesBranches d P) (hcommanded : Commanded d P command P') :
    P'.Raced d ∧ P'.BranchesRest d := by
  have hrest : P.BranchesRest d := by
    intro b _ _ hmem
    rw [hpending] at hmem
    cases hmem
  cases hcommanded with
  | deed hdeed hmade => exact h.acted hd hP hk hrest (hdeed.acted hP hk h hleaves) hmade
  | deliverMessage _ _ hr | broadcastSignal _ _ hr => exact hr.raced hd hP hk h hrest

/-- The step completes no branch as a task. -/
def Step.LeavesBranches (d : ProcessDefinition) (st : Step) : Prop :=
  match st.action with
  | .command command => command.LeavesBranches d st.before.pool
  | .process _ => True

/-- In every history of a definition that meets the condition, branches race. -/
theorem Trace.raced {steps : List Step} {ctx : ExecutionContext} (hd : d.Racing)
    (h : Trace d steps ctx) (hleaves : ∀ st ∈ steps, st.LeavesBranches d) :
    ctx.pool.Kindred d ∧ ctx.pool.Raced d := by
  refine h.maintains (I := fun P => P.Kindred d ∧ P.Raced d)
    (C := Step.LeavesBranches d) ?_ ?_ ?_ ?_
    hleaves
  · intro n
    constructor
    · intro c hc
      cases hc
    · constructor
      · intro x hx
        cases hx
      · intro b hb
        cases hb
      · intro b hb
        cases hb
  · intro P n _ _ _ ⟨hk, hraced⟩
    exact ⟨hk, hraced.tagged, hraced.branches, hraced.decided⟩
  · intro before command after hst hcoh hpending hI hcommanded
    exact ⟨hcommanded.kindred hcoh hI.1, (hcommanded.raced hd hcoh hpending hI.1 hI.2 hst).1⟩
  · intro before t after _ hhand hI hturned
    have hk : before.pool.Kindred d := hI.1
    have hraced := Pool.Raced.turned hd hhand hk hI.2 hturned
    obtain ⟨Q, origins, hturn, hmade⟩ := hturned
    exact ⟨hturn.kindred hhand hk hmade, hraced⟩

/-! ## What is not a branch of the winner is left alone -/

theorem Token.Justified.unhosted (h : b.Justified d) (hcatch : b.AtCatch d) :
    b.hostTaskId = none := by
  obtain ⟨e, he⟩ := hcatch.getElement
  obtain ⟨e', he', hcondition, -⟩ := h
  cases he.symm.trans he'
  have hcatch : e.eventDefinition.catchCondition = b.waitingFor := hcondition
  unfold hostTaskId
  rw [← hcatch]
  unfold EventDefinition.catchCondition
  cases e.eventDefinition.type <;> rfl

/-- `handleCompleteTask` touches a token at a catch event only if it completes that token or a
sibling. -/
theorem Token.AtCatch.touchesComplete (hd : d.Racing) (hnd : P.ids.Nodup) (hk : P.Kindred d)
    (htags : P.Always (Token.Tagged d)) (hw : P.Holds w) (hb : b ∈ P.tokens) (hcatch : b.AtCatch d)
    (h : P.TouchesComplete d w b) :
    b.id = w.id ∨ (w.parentTokenId ≠ none ∧ b.parentTokenId = w.parentTokenId) := by
  have hguards : ∀ s, ¬ Pool.Guards s b := by
    intro s hguards
    have htype := hguards.1
    rw [hcatch.1] at htype
    cases htype
  have hparent : ∀ p, w.parentTokenId.bind P.get? = some p → b.id ≠ p.id := by
    intro p hp hid
    obtain ⟨p', -, hget⟩ := Option.bind_eq_some_iff.1 hp
    have hmem := (Pool.get?_eq_some hget).1
    have hmay := hk.of_get? hw hp
    rw [← Pool.eq_of_id hnd hb hmem hid] at hmay
    exact hcatch.childless hmay
  unfold Pool.TouchesComplete at h
  split at h
  · exact h.elim
  · rename_i e he
    split at h
    · rcases h with hid | ⟨p, hp, -, hid | hg | ⟨-, hsame⟩⟩
      · exact .inl hid
      · exact absurd hid (hparent p hp)
      · exact absurd hg (hguards e.id)
      · obtain ⟨q, hq, hget⟩ := Option.bind_eq_some_iff.1 hp
        rw [← (Pool.get?_eq_some hget).2] at hq
        exact .inr ⟨by rw [hq]; exact Option.some_ne_none _, hsame.trans hq.symm⟩
    · rename_i throwToken hrole
      have hthrow := Pool.holds_of_role hrole
      rcases h with hid | ⟨-, hid | ⟨s, htag, outer, houter, bd, hbd, x, hx, hid⟩⟩
      · exact .inl hid
      · exact absurd hid (hparent throwToken hthrow)
      · have hplace : ∀ y ∈ (P.finish w).tokens, b.id = y.id → b.elementId = y.elementId := by
          intro y hy hid
          obtain ⟨z, hz, hzy⟩ := (Frame.finish hnd hw).exists_mem' hy
          rw [Pool.eq_of_id hnd hb hz (hid.trans (Token.id_of_bare hzy).symm)]
          exact Token.elementId_of_bare hzy
        have hcompletes : Finishes d throwToken b := by
          rcases hid with hid | hid
          · obtain ⟨hmem, helement, -⟩ := Pool.waitingAt_eq_some hx
            exact .boundary (List.mem_of_find?_eq_some hbd) ((hplace x hmem hid).trans helement)
          · obtain ⟨hmem, helement, -⟩ := Pool.waitingAt_eq_some houter
            exact .outer htag ((hplace outer hmem hid).trans helement)
        exact absurd (hcompletes.of_catch hd hk htags (Pool.holds_of_get? hthrow) hb hcatch)
          (hparent throwToken hthrow)
    · rcases h with hid | hg
      · exact .inl hid
      · exact absurd hg (hguards w.elementId)

/-- The command is an event that happens. -/
def EngineCommand.isEvent : EngineCommand → Bool
  | .fireTimer _ | .deliverMessage _ _ | .broadcastSignal _ _ => true
  | _ => false

/-- The token waits for what the command brings. -/
def EngineCommand.wakes (command : EngineCommand) (w : Token) : Bool :=
  w.status = .waiting && command.reaches w

/-- An event leaves a token at a catch event alone, if it neither wakes it nor a sibling. -/
theorem Commanded.leaves {command : EngineCommand} (hd : d.Racing) (hP : P.Coherent [])
    (hk : P.Kindred d) (htags : P.Always (Token.Tagged d)) (hj : P.Justified d)
    (hevent : command.isEvent = true) (hb : b ∈ P.tokens) (hcatch : b.AtCatch d)
    (hself : command.wakes b = false)
    (hsiblings : ∀ w ∈ P.tokens, command.wakes w = true → ¬ Pool.TouchesSiblings w b)
    (h : Commanded d P command P') : b ∈ P'.tokens := by
  have hne : ∀ w ∈ P.tokens, command.wakes w = true → b.id ≠ w.id := by
    intro w hw hwakes hid
    rw [← Pool.eq_of_id hP.nodup hb hw hid, hself] at hwakes
    cases hwakes
  have htouches : ∀ w ∈ P.tokens, command.wakes w = true → ¬ Pool.TouchesResume w b := by
    rintro w hw hwakes (hid | htouch)
    · exact hne w hw hwakes hid
    · exact hsiblings w hw hwakes htouch
  cases h with
  | deliverMessage name _ h =>
    refine h.stays hb fun w hw => ?_
    obtain ⟨hw, hname⟩ := List.mem_filter.1 hw
    refine htouches w hw ?_
    simpa [EngineCommand.wakes, EngineCommand.reaches, Token.awaitsMessage_waiting hname]
      using hname
  | broadcastSignal name _ h =>
    refine h.stays hb fun w hw => ?_
    obtain ⟨hw, hname⟩ := List.mem_filter.1 hw
    refine htouches w hw ?_
    simpa [EngineCommand.wakes, EngineCommand.reaches, Token.awaitsSignal_waiting hname] using hname
  | deed hdeed hmade =>
    apply hmade.stays
    cases hdeed with
    | fireInterrupting hw hwaiting _ _ _ =>
      have hwakes := hne _ hw (by simp [EngineCommand.wakes, EngineCommand.reaches, hwaiting])
      have hfinish := Pool.mem_finish_of_ne hb hwakes
      apply Pool.mem_cancelAll_of_not hfinish
      rw [decide_eq_false_iff_not]
      rintro ⟨-, hbw, helement | hhost⟩
      · rename_i e he _
        have hhosts := hd.hosts _ (ProcessDefinition.mem_allElements he) e rfl
        rw [← helement] at hhosts
        exact hhosts hcatch.2
      · rw [(hj b hb hbw).unhosted hcatch] at hhost
        cases hhost
    | fireBoundary hw hwaiting _ _ _ =>
      have hwakes := hne _ hw (by simp [EngineCommand.wakes, EngineCommand.reaches, hwaiting])
      exact Pool.mem_finish_of_ne hb hwakes
    | @fireCatch w hw hwaiting _ _ _ hcomplete =>
      have hwakes : (EngineCommand.fireTimer w.id).wakes w = true := by
        simp [EngineCommand.wakes, EngineCommand.reaches, hwaiting]
      have hclear := Frame.clearSiblings P w
      have hbclear := Pool.mem_clearSiblings hb (hsiblings w hw hwakes)
      refine hcomplete.stays hbclear fun htouch => ?_
      rcases hcatch.touchesComplete hd (hclear.nodup hP.nodup) (hk.frame hclear)
        (htags.frame (fun _ _ => Token.Tagged.of_bare) hclear) (hclear.holds (Pool.holds_of_mem hw))
        hbclear htouch with hid | ⟨hparent, hsame⟩
      · exact hne w hw hwakes hid
      · exact hsiblings w hw hwakes ⟨hne w hw hwakes, hparent, hsame⟩
    | _ => cases hevent

/-! ## The winner -/

/-- The branches of one activation among the targets that are resumed: the first one only. -/
theorem branches_resumed {g : Nat} {done targets : List Token}
    (hnd : (targets.map (·.id)).Nodup) (hdone : ∀ u ∈ done, ∀ v ∈ targets, v.id ≠ u.id) :
    (resumed done targets).filter (·.parentTokenId = some g) =
      if ∃ u ∈ done, u.parentTokenId = some g then []
      else (targets.filter (·.parentTokenId = some g)).take 1 := by
  induction targets generalizing done with
  | nil => simp [resumed]
  | cons v rest ih =>
    obtain ⟨hv, hrest⟩ := List.nodup_cons.1 hnd
    have hdone' : ∀ u ∈ done, ∀ v ∈ rest, v.id ≠ u.id := fun u hu w hw =>
      hdone u hu w (List.mem_cons_of_mem v hw)
    have hnext : ∀ u ∈ v :: done, ∀ w ∈ rest, w.id ≠ u.id := by
      intro u hu w hw
      rcases List.mem_cons.1 hu with rfl | hu
      · exact fun hid => hv (List.mem_map.2 ⟨w, hw, hid⟩)
      · exact hdone' u hu w hw
    unfold resumed
    by_cases hstop : ∃ u ∈ done, Pool.TouchesSiblings u v
    · rw [if_pos hstop, ih hrest hdone']
      by_cases hg : v.parentTokenId = some g
      · obtain ⟨u, hu, -, -, hsame⟩ := hstop
        have hex : ∃ u ∈ done, u.parentTokenId = some g := ⟨u, hu, hsame.symm.trans hg⟩
        rw [if_pos hex, if_pos hex]
      · rw [List.filter_cons_of_neg (by simpa using hg)]
    · rw [if_neg hstop]
      by_cases hg : v.parentTokenId = some g
      · have hnone : ¬ ∃ u ∈ done, u.parentTokenId = some g := by
          rintro ⟨u, hu, hug⟩
          refine hstop ⟨u, hu, hdone u hu v List.mem_cons_self, ?_, hg.trans hug.symm⟩
          rw [hug]
          exact Option.some_ne_none g
        have hthere : ∃ u ∈ v :: done, u.parentTokenId = some g := ⟨v, List.mem_cons_self, hg⟩
        rw [List.filter_cons_of_pos (by simpa using hg), ih hrest hnext, if_pos hthere,
          if_neg hnone, List.filter_cons_of_pos (by simpa using hg)]
        rfl
      · rw [List.filter_cons_of_neg (by simpa using hg), ih hrest hnext,
          List.filter_cons_of_neg (by simpa using hg)]
        simp [hg]

/-- The branches of an activation: `g` is the id of the token that reached the gateway. -/
def Pool.branches (P : Pool) (g : Nat) : List Token := P.tokens.filter (·.parentTokenId = some g)

variable (d) in
/-- The new tokens of the queue are those with which the given ones leave their elements. -/
def MovesOn (winners : List Token) (P P' : Pool) : Prop :=
  ∃ news, P'.pending = P.pending ++ news ∧
    List.Forall₂ (Made d) (winners.flatMap fun w => onFlows w (d.exits w.elementId)) news

theorem Spawned.movesOn {winners : List Token} (hframe : Frame P Q)
    (hexits : origins = winners.flatMap fun w => onFlows w (d.exits w.elementId))
    (hmade : Spawned (Made d) origins Q P') : MovesOn d winners P P' := by
  obtain ⟨news, n, hR, -, rfl⟩ := hmade
  refine ⟨news, ?_, hexits ▸ hR⟩
  rw [← hframe.pending]
  rfl

theorem Pool.role_of_catch {e : EventElement} : P.role w (.intermediateCatchEvent e) = .plain := by
  unfold Pool.role
  cases w.parentTokenId.bind P.get? with
  | none => rfl
  | some p => simp [BpmnFlowElement.loopCharacteristics, BpmnFlowElement.isForCompensation]

theorem EngineCommand.wakes_deliverMessage (name : String) (vars : Option Variables) :
    (EngineCommand.deliverMessage name vars).wakes = Token.awaitsMessage name := by
  funext x
  simp [wakes, reaches, Token.awaitsMessage, ← Bool.and_assoc]

theorem EngineCommand.wakes_broadcastSignal (name : String) (vars : Option Variables) :
    (EngineCommand.broadcastSignal name vars).wakes = Token.awaitsSignal name := by
  funext x
  simp [wakes, reaches, Token.awaitsSignal, ← Bool.and_assoc]

/-- Among the tokens that wait for a message or a signal, the first branch of the activation
wins. -/
theorem branches_of_find? {g : Nat} {p : Token → Bool} (hnd : P.ids.Nodup)
    (hfirst : (P.branches g).find? p = some w) :
    (resumed [] (P.tokens.filter p)).filter (·.parentTokenId = some g) = [w] := by
  rw [branches_resumed (hnd.sublist (List.filter_sublist.map _)) (by simp)]
  have hcomm : (P.tokens.filter p).filter (·.parentTokenId = some g) = (P.branches g).filter p := by
    unfold Pool.branches
    rw [List.filter_filter, List.filter_filter]
    exact List.filter_congr fun x _ => Bool.and_comm _ _
  rw [← List.head?_filter] at hfirst
  rw [if_neg (by simp), hcomm, List.take_one, hfirst]
  rfl

/-- The first branch that an event wakes is completed and moves on, and no other branch of the
activation does. -/
theorem Commanded.first {command : EngineCommand} {g : Nat} (hP : P.Coherent [])
    (hevent : command.isEvent = true) (hcatch : w.AtCatch d)
    (hfirst : (P.branches g).find? command.wakes = some w) (h : Commanded d P command P') :
    { w with status := .completed } ∈ P'.tokens ∧ ∃ winners : List Token,
      winners.Sublist P.tokens ∧ winners.filter (·.parentTokenId = some g) = [w] ∧
        MovesOn d winners P P' := by
  obtain ⟨hw, hwg⟩ := List.mem_filter.1 (List.mem_of_find?_eq_some hfirst)
  have hwakes := List.find?_some hfirst
  -- the targets of a message or a signal
  have htargets : ∀ p : Token → Bool, (∀ x, p x = true → x.status = .waiting) →
      (P.branches g).find? p = some w → Resumes d (P.tokens.filter p) P P' →
      { w with status := .completed } ∈ P'.tokens ∧ ∃ winners : List Token,
        winners.Sublist P.tokens ∧ winners.filter (·.parentTokenId = some g) = [w] ∧
          MovesOn d winners P P' := by
    intro p hp hfirst hr
    have hleft := TargetsLeft.of_filter hP.nodup hp
    have hwins := branches_of_find? hP.nodup hfirst
    have hmem : w ∈ resumed [] (P.tokens.filter p) := by
      have hone : w ∈ (resumed [] (P.tokens.filter p)).filter (·.parentTokenId = some g) := by
        rw [hwins]
        exact List.mem_cons_self
      exact (List.mem_filter.1 hone).1
    obtain ⟨news, hpending, -, hR⟩ := hr.news hP hleft
    exact ⟨hr.completes hP hleft hmem, _, (resumed_sublist [] _).trans List.filter_sublist, hwins,
      news, hpending, hR⟩
  cases h with
  | deliverMessage name vars hr =>
    rw [EngineCommand.wakes_deliverMessage] at hfirst
    exact htargets _ (fun _ => Token.awaitsMessage_waiting) hfirst hr
  | broadcastSignal name vars hr =>
    rw [EngineCommand.wakes_broadcastSignal] at hfirst
    exact htargets _ (fun _ => Token.awaitsSignal_waiting) hfirst hr
  | deed hdeed hmade =>
    have hsame : ∀ v ∈ P.tokens, (EngineCommand.fireTimer v.id).wakes w = true → v = w := by
      intro v hv hwakes
      have hid : w.id = v.id := by
        simpa [EngineCommand.wakes, EngineCommand.reaches] using (Bool.and_eq_true_iff.1 hwakes).2
      exact (Pool.eq_of_id hP.nodup hw hv hid).symm
    cases hdeed with
    | fireInterrupting hv _ htype _ _ | fireBoundary hv _ htype _ _ =>
      rw [hsame _ hv hwakes, hcatch.1] at htype
      cases htype
    | @fireCatch v hv hwaiting _ _ _ hcomplete =>
      obtain rfl := hsame v hv hwakes
      obtain ⟨e, he⟩ := hcatch.getElement
      have hclear := Frame.clearSiblings P v
      have hframe := hclear.trans (hcomplete.frame (hclear.nodup hP.nodup)
        (hclear.holds (Pool.holds_of_mem hv)))
      have hself : v ∈ (P.clearSiblings v).tokens := mem_clearSiblings_self hv
      cases hcomplete with
      | child he' hrole _ | handler he' hrole _ =>
        cases he.symm.trans he'
        rw [Pool.role_of_catch] at hrole
        cases hrole
      | plain he' _ _ =>
        cases he.symm.trans he'
        refine ⟨hmade.stays ?_, [v], List.singleton_sublist.2 hv, ?_, ?_⟩
        · refine Pool.mem_finish (P := (P.clearSiblings v).autoResume.clearBoundaries v.elementId)
            ?_
          refine Pool.mem_clearBoundaries hself fun hguards => ?_
          have htype := hguards.1
          rw [hcatch.1] at htype
          cases htype
        · simpa using hwg
        · refine hmade.movesOn hframe ?_
          rw [List.flatMap_cons, List.flatMap_nil, List.append_nil,
            ProcessDefinition.exits_of_getElement he]
    | _ => cases hevent

/-! ## A whole call -/

/-- In the run loop a branch that rests is not completed; at most it is cancelled. -/
theorem Turned.rests (hd : d.Racing) (hP : P.Coherent [t]) (hk : P.Kindred d)
    (htags : P.Always (Token.Tagged d)) (hb : b ∈ P.tokens) (hcatch : b.AtCatch d)
    (hrest : b.id ∉ (P.push t).pending.map (·.id)) (h : Turned d P t P') :
    ∃ y ∈ P'.tokens, Fate (fun _ => False) b y ∧ y.id ∉ P'.pending.map (·.id) := by
  obtain ⟨Q, origins, hturn, hmade⟩ := h
  have ht := hP.holds List.mem_cons_self
  have hframe := hturn.frame hP.nodup ht
  rw [Pool.push, List.map_cons, List.mem_cons, not_or] at hrest
  obtain ⟨y, hy, hyb⟩ := hframe.exists_mem hb
  have hid : y.id = b.id := Token.id_of_bare hyb
  obtain ⟨x, hx, hxy⟩ := hturn.fates hP.nodup ht hy (hid ▸ hrest.1)
  obtain rfl := Pool.eq_of_id hP.nodup hx hb ((Token.id_of_bare hxy.bare).trans hid)
  refine ⟨y, hmade.stays hy, hxy.mono fun hcompletes => ?_, ?_⟩
  · exact hrest.1 (hcompletes.of_catch hd hk htags ht hb hcatch)
  · apply hmade.notPending ((hturn.ready hP).coherent.numbered y hy)
    rw [hframe.pending, hid]
    exact hrest.2

variable (d) in
/-- What an event does to the branches of one activation, up to the run loop. -/
structure Decides (P : Pool) (command : EngineCommand) (g : Nat) (P' : Pool) : Prop where
  /-- If it wakes none of them, they are left alone. -/
  left : (∀ b ∈ P.branches g, command.wakes b = false) → ∀ b ∈ P.branches g, b ∈ P'.tokens
  /-- The first one that it wakes is completed and moves on, and the others are cancelled. -/
  won : ∀ w, (P.branches g).find? command.wakes = some w →
    { w with status := .completed } ∈ P'.tokens ∧
    (∀ b ∈ P'.branches g, b.id ≠ w.id → b.status = .cancelled) ∧
    ∃ winners : List Token, winners.Sublist P.tokens ∧
      winners.filter (·.parentTokenId = some g) = [w] ∧ MovesOn d winners P P'

variable (d) in
/-- The claim about an event and one activation: the first branch that the event wakes moves on and
the others are cancelled.  No branch is completed in the rest of the call, and what is finished
stays as it is in all later states. -/
structure Exclusive (state : EngineState) (command : EngineCommand) (options : ExecuteOptions)
    (result : EngineResult) (g : Nat) : Prop where
  handled : ∃ after, handleCommand d (.create (some state) options) command = .ok after ∧
    Decides d (ExecutionContext.create (some state) options).pool command g after.pool ∧
    ∀ b ∈ after.pool.branches g, ∃ y ∈ result.newState.tokens, Fate (fun _ => False) b y.erase
  later : ∀ later nextId, Later d result.newState result.nextId later nextId →
    ∀ b ∈ result.newState.tokens, b.parentTokenId = some g → b.Finished →
      ∃ y ∈ later.tokens, y.erase = b.erase

theorem EngineCommand.LeavesBranches.of_isEvent {command : EngineCommand}
    (hevent : command.isEvent = true) : command.LeavesBranches d P := by
  intro w _ htask
  cases command with
  | fireTimer _ | deliverMessage _ _ | broadcastSignal _ _ => cases htask
  | _ => cases hevent

theorem Commanded.decides {command : EngineCommand} {g : Token} (hd : d.Racing) (hP : P.Coherent [])
    (hpending : P.pending = []) (hk : P.Kindred d) (h : P.Raced d) (hj : P.Justified d)
    (hevent : command.isEvent = true) (hg : g ∈ P.tokens) (hgate : g.AtGate d)
    (hcommanded : Commanded d P command P') : Decides d P command g.id P' := by
  have hbranch : ∀ b ∈ P.branches g.id, b ∈ P.tokens ∧ P.Branch d b := by
    intro b hb
    obtain ⟨hmem, hparent⟩ := List.mem_filter.1 hb
    exact ⟨hmem, g, hg, of_decide_eq_true hparent, hgate⟩
  refine ⟨fun hnone b hb => ?_, fun w hw => ?_⟩
  · obtain ⟨hmem, hb'⟩ := hbranch b hb
    refine hcommanded.leaves hd hP hk h.tagged hj hevent hmem (h.branches b hmem hb')
      (hnone b hb) ?_
    rintro v hv hwakes ⟨-, -, hsame⟩
    have hvb : v ∈ P.branches g.id :=
      List.mem_filter.2 ⟨hv, by rw [← hsame]; exact (List.mem_filter.1 hb).2⟩
    rw [hnone v hvb] at hwakes
    cases hwakes
  · have hwb := List.mem_of_find?_eq_some hw
    obtain ⟨hmem, hw'⟩ := hbranch w hwb
    obtain ⟨hcompleted, hmoves⟩ := hcommanded.first hP hevent (h.branches w hmem hw') hw
    have hraced := (hcommanded.raced hd hP hpending hk h (.of_isEvent hevent)).1
    have hparent : w.parentTokenId = some g.id := of_decide_eq_true (List.mem_filter.1 hwb).2
    obtain ⟨q, hq, hqg⟩ := Pool.holds_iff.1 (hcommanded.holds hP (Pool.holds_of_mem hg))
    refine ⟨hcompleted, fun b hb hne => ?_, hmoves⟩
    obtain ⟨hbmem, hbparent⟩ := List.mem_filter.1 hb
    refine (hraced.decided _ hcompleted ⟨q, hq, ?_, hgate.of_bare hqg.symm⟩ rfl b hbmem ?_ hne).1
    · rw [Token.id_of_bare hqg]
      exact hparent
    · exact (of_decide_eq_true hbparent).trans hparent.symm

section Calls

variable {steps : List Step} {state : EngineState} {fuel : Nat} {command : EngineCommand}
  {options : ExecuteOptions} {result : EngineResult}

/-- What a finished branch is, it stays in a call. -/
theorem Call.keeps (call : Call d steps command (some state) options)
    (hok : execute d fuel command (some state) options = .ok result) (hb : b ∈ state.tokens)
    (hfin : b.Finished) (hcatch : b.AtCatch d) :
    ∃ y ∈ result.newState.tokens, y.erase = b.erase := by
  obtain ⟨htrace, htokens⟩ := call.trace
  have hmem : b.erase ∈ (ExecutionContext.create (some state) options).pool.tokens := by
    refine ExecutionContext.mem_pool _ ?_
    rw [htokens]
    exact hb
  have hchildless : ¬ b.erase.MayParent d := Token.AtCatch.childless hcatch
  refine call.settled hok fun after hcoh hcmd => ⟨?_, hfin, fun hpending => ?_, hchildless⟩
  · exact hcmd.keeps hcoh htrace.kindred hmem hfin hchildless
  · obtain ⟨x, hx, hid⟩ := List.mem_map.1 hpending
    have hlt := hcoh.numbered _ hmem
    rcases (Pool.Grows.commanded hcoh (le_refl _) hcmd).pending x hx with hold | hle
    · cases hold
    · rw [hid] at hle
      omega

/-- And in all later states of the run. -/
theorem Later.keeps {later : EngineState} {nextId laterId : Nat}
    (run : Run d steps state nextId) (h : Later d state nextId later laterId)
    (hb : b ∈ state.tokens) (hfin : b.Finished) (hcatch : b.AtCatch d) :
    ∃ y ∈ later.tokens, y.erase = b.erase := by
  induction h with
  | refl => exact ⟨b, hb, rfl⟩
  | next h hid hok ih =>
    obtain ⟨x, hx, hxb⟩ := ih
    obtain ⟨steps', run'⟩ := h.run run
    have hxfin : x.Finished := by
      rw [← Token.finished_erase, hxb]
      exact hfin
    have hxcatch : x.AtCatch d := by
      have herase : x.erase.AtCatch d := hxb ▸ hcatch
      exact herase
    obtain ⟨y, hy, hyx⟩ := (Call.next run' _ hid).keeps hok hx hxfin hxcatch
    exact ⟨y, hy, hyx.trans hxb⟩

variable (d) in
/-- In the course of a call on the pool `P`: the event has done its work, and the branches of the
activation have not been completed since. -/
structure Decided (P : Pool) (command : EngineCommand) (g : Token) (after ctx : ExecutionContext) :
    Prop where
  decides : Decides d P command g.id after.pool
  kindred : ctx.pool.Kindred d
  raced : ctx.pool.Raced d
  gate : ctx.pool.Holds g
  rest : ∀ b ∈ after.pool.branches g.id, b.AtCatch d ∧ ∃ y ∈ ctx.pool.tokens,
    Fate (fun _ => False) b y ∧ y.id ∉ ctx.pool.pending.map (·.id)

theorem Pool.Holds.branch {g : Token} (hg : P.Holds g) (hgate : g.AtGate d)
    (hparent : b.parentTokenId = some g.id) : P.Branch d b := by
  obtain ⟨q, hq, hqg⟩ := Pool.holds_iff.1 hg
  refine ⟨q, hq, ?_, hgate.of_bare hqg.symm⟩
  rw [Token.id_of_bare hqg]
  exact hparent

theorem Decided.commanded {g : Token} {after : ExecutionContext} (hd : d.Racing)
    (hP : P.Coherent []) (hpending : P.pending = []) (hk : P.Kindred d) (h : P.Raced d)
    (hj : P.Justified d) (hevent : command.isEvent = true) (hg : g ∈ P.tokens) (hgate : g.AtGate d)
    (hcommanded : Commanded d P command after.pool) : Decided d P command g after after := by
  obtain ⟨hraced, hrest⟩ := hcommanded.raced hd hP hpending hk h (.of_isEvent hevent)
  have hthere := hcommanded.holds hP (Pool.holds_of_mem hg)
  refine ⟨hcommanded.decides hd hP hpending hk h hj hevent hg hgate, hcommanded.kindred hP hk,
    hraced,
    hthere, fun b hb => ?_⟩
  obtain ⟨hmem, hparent⟩ := List.mem_filter.1 hb
  have hbranch := hthere.branch hgate (of_decide_eq_true hparent)
  exact ⟨hraced.branches b hmem hbranch, b, hmem, .refl b, hrest b hmem hbranch⟩

theorem Decided.turned {g : Token} {after before mid : ExecutionContext} (hd : d.Racing)
    (hhand : before.pool.Coherent [t.erase]) (h : Decided d P command g after (before.unpop t))
    (hmid : processToken d before t = .ok mid) : Decided d P command g after mid := by
  have hturned := processToken_turned hhand hmid
  have hk : before.pool.Kindred d := h.kindred
  have hthere : before.pool.Holds g := h.gate
  have hraced := Pool.Raced.turned hd hhand hk h.raced hturned
  refine ⟨h.decides, ?_, hraced, hturned.holds hhand hthere, fun b hb => ?_⟩
  · obtain ⟨Q, origins, hturn, hmade⟩ := hturned
    exact hturn.kindred hhand hk hmade
  · obtain ⟨hcatch, y, hy, hby, hnot⟩ := h.rest b hb
    obtain ⟨z, hz, hyz, hnot'⟩ :=
      hturned.rests hd hhand hk h.raced.tagged hy (hcatch.of_bare hby.bare) hnot
    exact ⟨hcatch, z, hz, hby.trans (fun _ _ _ h => h) hyz, hnot'⟩

/-- Whatever event happens in a run of a definition in which the branches race, and whatever
activation is looked at: one branch at most moves on. -/
theorem exclusive_of_racing (hd : d.Racing) (call : Call d steps command (some state) options)
    (hleaves : ∀ st ∈ steps, st.LeavesBranches d) (hevent : command.isEvent = true)
    (hok : execute d fuel command (some state) options = .ok result) {g : Token}
    (hg : g ∈ state.tokens) (hgate : g.AtGate d) :
    Exclusive d state command options result g.id := by
  obtain ⟨htrace, htokens⟩ := call.trace
  obtain ⟨hk, hraced⟩ := htrace.raced hd hleaves
  have hcoh := htrace.coherent
  have hgmem : g.erase ∈ (ExecutionContext.create (some state) options).pool.tokens := by
    refine ExecutionContext.mem_pool _ ?_
    rw [htokens]
    exact hg
  have hgate' : g.erase.AtGate d := hgate
  -- the handler decides the race, and the loop leaves the decision as it is
  obtain ⟨ctx, inst, ⟨after, hafter, hdecided⟩, -, -, -, hstate, -, -⟩ :=
    execute_keeps (C := fun _ => True) (I := fun ctx => ∃ after,
        handleCommand d (.create (some state) options) command = .ok after ∧
        Decided d (ExecutionContext.create (some state) options).pool command g.erase after ctx)
      hcoh hok (fun _ _ => trivial)
      (fun after _ hafter => ⟨after, hafter,
        .commanded hd hcoh rfl hk hraced htrace.justified hevent
        hgmem hgate' (handleCommand_commanded hcoh.numbered hafter)⟩)
      (fun before t mid _ hhand ⟨after, hafter, hdecided⟩ hmid =>
        ⟨after, hafter, hdecided.turned hd hhand hmid⟩)
  refine ⟨⟨after, hafter, hdecided.decides, fun b hb => ?_⟩,
    fun later nextId hlater b hb hbg hfin => ?_⟩
  · obtain ⟨-, y, hy, hfate, -⟩ := hdecided.rest b hb
    obtain ⟨z, hz, rfl⟩ := List.mem_map.1 hy
    exact ⟨z, by rw [hstate]; exact hz, hfate⟩
  · have hmem : b.erase ∈ ctx.pool.tokens := by
      rw [hstate] at hb
      exact List.mem_map_of_mem hb
    have hcatch := hdecided.raced.branches b.erase hmem (hdecided.gate.branch hgate' hbg)
    exact hlater.keeps (call.run hok) hb hfin hcatch

end Calls

/-! ## A branch that the gateway does not list -/

instance (t : Token) : Decidable (t.AtGate d) := by
  unfold Token.AtGate
  infer_instance

instance (P : Pool) (b : Token) : Decidable (P.Branch d b) := by
  unfold Pool.Branch
  infer_instance

instance (st : Step) : Decidable (st.LeavesBranches d) := by
  unfold Step.LeavesBranches EngineCommand.LeavesBranches
  rcases st.action with _ | _ <;> infer_instance

namespace Diagram

def verdictFlows : List SequenceFlow :=
  [.between "toRace" "start" "race", .between "toYes" "race" "yes", .between "toNo" "race" "no",
    .between "toEnd" "yes" "end", .between "toCheck" "no" "check"]

/-- Two branches that wait for the same signal. -/
def verdict : ProcessDefinition :=
  definition verdictFlows
    [start verdictFlows "start", .gateway (gateway verdictFlows "race" .eventBased),
      catchEvent verdictFlows "yes" { type := .signal, signalName := some "answer" },
      catchEvent verdictFlows "no" { type := .signal, signalName := some "answer" },
      userTask verdictFlows "check", finish verdictFlows "end" .none]

def noteFlows : List SequenceFlow :=
  [.between "toRace" "start" "race", .between "toWait" "race" "wait",
    .between "toCheck" "race" "check", .between "toEnd" "wait" "end",
    .between "toDone" "check" "end"]

/-- A gateway that lists a timer only; a second sequence flow starts at it and leads to a task. -/
def note : ProcessDefinition :=
  definition noteFlows
    [start noteFlows "start",
      .gateway { gateway noteFlows "race" .eventBased with outgoingFlows := ["toWait"] },
      catchEvent noteFlows "wait" { type := .timer },
      .manualTask { toBpmnElement := node noteFlows "check" },
      finish noteFlows "end" .none]

end Diagram

open Diagram

/-- The signal reaches both branches at once. -/
theorem exclusive_verdict : ∃ (r : Replay) (result : EngineResult), ∃ g ∈ r.state.tokens,
    g.AtGate verdict ∧ r.state.tokens.countP
      (EngineCommand.wakes (.broadcastSignal "answer" none)) = 2 ∧
    Exclusive verdict r.state (.broadcastSignal "answer" none)
      (stopped always r.nextId) result g.id := by
  obtain ⟨r, result, call, hok, htest⟩ := exists_call_of_replay verdict always 10 none []
    (.broadcastSignal "answer" none) (fun r _ => (∃ g ∈ r.state.tokens, g.AtGate verdict) ∧
      r.state.tokens.countP (EngineCommand.wakes (.broadcastSignal "answer" none)) = 2 ∧
      ∀ st ∈ r.steps, st.LeavesBranches verdict) (by decide +kernel)
  obtain ⟨⟨g, hg, hgate⟩, htwo, hleaves⟩ := of_decide_eq_true htest
  exact ⟨r, result, g, hg, hgate, htwo,
    exclusive_of_racing (by decide +kernel) call hleaves rfl hok hg hgate⟩

/-- The task behind the gateway has been done at once, and the timer goes off all the same. -/
theorem not_exclusive_note : ∃ (r : Replay) (result : EngineResult), ∃ g ∈ r.state.tokens,
    Call note r.steps (.fireTimer 4) (some r.state) (stopped always r.nextId) ∧ g.AtGate note ∧
    execute note 10 (.fireTimer 4) (some r.state) (stopped always r.nextId) = .ok result ∧
    ¬ Exclusive note r.state (.fireTimer 4) (stopped always r.nextId) result g.id := by
  obtain ⟨r, result, call, hok, htest⟩ :=
    exists_call_of_replay note always 10 none [] (.fireTimer 4)
    (fun r _ => ∃ g ∈ r.state.tokens, g.AtGate note ∧
      ∃ w ∈ ((ExecutionContext.create (some r.state) (stopped always r.nextId)).pool.branches
        g.id).find? (EngineCommand.wakes (.fireTimer 4)),
      ∃ after ∈ (handleCommand note (.create (some r.state) (stopped always r.nextId))
        (.fireTimer 4)).toOption,
      ∃ b ∈ after.pool.branches g.id, b.id ≠ w.id ∧ b.status ≠ .cancelled) (by decide +kernel)
  obtain ⟨g, hg, hgate, w, hw, after, hafter, b, hb, hne, hnot⟩ := of_decide_eq_true htest
  refine ⟨r, result, g, hg, call, hgate, hok, fun hexclusive => ?_⟩
  obtain ⟨after', hafter', hdecides, -⟩ := hexclusive.handled
  have hsame : after' = after := by simpa [hafter', Except.toOption] using hafter
  exact hnot ((hdecides.won w hw).2.1 b (hsame ▸ hb) hne)

end NexusWorkflow
