import NexusWorkflow.Run.Diagram

/-!
# Finished tokens are final

A token that has completed or was cancelled should stay so, nothing should happen on its behalf
again, and a token reported as cancelled should be cancelled when `execute` returns.  The engine
breaks this in four ways: the loop processes a token that was cancelled while it was in the queue; a
child of a multi-instance activity, or a compensation handler, completes a parent that is finished
already; and a boundary token attached to its own element cancels itself before it completes.  A
call in which none of these steps is made leaves every finished token as it was.
-/

namespace NexusWorkflow

open ExecutionContext

variable {d : ProcessDefinition} {P Q R P' : Pool} {origins : List Origin}

/-! ## What is finished stays -/

/-- Finished tokens stay as they are, and the tokens reported as cancelled are cancelled. -/
structure Final (P Q : Pool) : Prop where
  keeps : ∀ x ∈ P.tokens, x.Finished → x ∈ Q.tokens
  reported : ∀ id ∈ Q.cancelled,
    id ∈ P.cancelled ∨ ∃ y ∈ Q.tokens, y.id = id ∧ y.status = .cancelled

namespace Final

theorem refl (P : Pool) : Final P P := ⟨fun _ hx _ => hx, fun _ hid => Or.inl hid⟩

theorem trans (h : Final P Q) (h' : Final Q R) : Final P R where
  keeps x hx hfin := h'.keeps x (h.keeps x hx hfin) hfin
  reported id hid := by
    rcases h'.reported id hid with hid | hR
    · rcases h.reported id hid with hid | ⟨y, hy, hyid, hcancelled⟩
      · exact Or.inl hid
      · exact Or.inr ⟨y, h'.keeps y hy (Or.inr hcancelled), hyid, hcancelled⟩
    · exact Or.inr hR

theorem of_eq (ht : Q.tokens = P.tokens) (hc : Q.cancelled = P.cancelled) : Final P Q where
  keeps _ hx _ := ht ▸ hx
  reported _ hid := Or.inl (hc ▸ hid)

/-- A token that is not finished gets a new version. -/
theorem put (hP : P.ids.Nodup) {x t : Token} (hx : x ∈ P.tokens) (hid : x.id = t.id)
    (hnot : ¬ x.Finished) : Final P (P.put t) where
  keeps y hy hfin := by
    refine Pool.mem_put_of_ne hy fun h => hnot ?_
    rwa [Pool.eq_of_id hP hx hy (hid.trans h.symm)]
  reported _ hid := Or.inl hid

theorem finish (hP : P.ids.Nodup) {t : Token} (ht : t ∈ P.tokens) (hnot : ¬ t.Finished) :
    Final P (P.finish t) :=
  put hP (t := { t with status := .completed }) ht rfl hnot

theorem cancelAll {p : Token → Bool} (h : ∀ x ∈ P.tokens, p x = true → ¬ x.Finished) :
    Final P (P.cancelAll p) where
  keeps x hx hfin := by
    refine Pool.mem_cancelAll_of_not hx (Bool.eq_false_iff.2 fun hp => ?_)
    exact h x hx hp hfin
  reported id hid := by
    rcases List.mem_append.1 hid with hid | hid
    · exact Or.inl hid
    · obtain ⟨x, hx, rfl⟩ := List.mem_map.1 hid
      obtain ⟨hx, hp⟩ := List.mem_filter.1 hx
      exact Or.inr ⟨{ x with status := .cancelled },
        List.mem_map.2 ⟨x, hx, by simp [Pool.kill, hp]⟩, rfl, rfl⟩

theorem cancelOne (hP : P.ids.Nodup) {t : Token} (ht : t ∈ P.tokens) (hnot : ¬ t.Finished) :
    Final P (P.cancelOne t) where
  keeps := (put hP (t := { t with status := .cancelled }) ht rfl hnot).keeps
  reported id hid := by
    rcases List.mem_append.1 hid with hid | hid
    · exact Or.inl hid
    · rw [List.mem_singleton] at hid
      exact Or.inr ⟨{ t with status := .cancelled },
        List.mem_map.2 ⟨t, ht, by simp [Pool.update]⟩, hid.symm, rfl⟩

end Final

theorem Token.not_finished_of_waiting {t : Token} (h : t.status = .waiting) : ¬ t.Finished := by
  simp [Token.Finished, h]

theorem Token.not_finished_of_live {t : Token} (h : t.live = true) : ¬ t.Finished := fun hf => by
  simp [Token.not_live_of_finished hf] at h

/-- A cancellation of waiting tokens. -/
theorem Final.cancelWaiting {p : Token → Bool} (h : ∀ x, p x = true → x.status = .waiting) :
    Final P (P.cancelAll p) :=
  .cancelAll fun x _ hp => Token.not_finished_of_waiting (h x hp)

theorem Final.clearBoundaries (P : Pool) (elementId : String) :
    Final P (P.clearBoundaries elementId) :=
  .cancelWaiting fun x hx => by
    simp only [decide_eq_true_eq] at hx
    exact hx.1

theorem Final.clearHost (P : Pool) (attachedToRef : String) (firing : Option Nat) :
    Final P (P.clearHost attachedToRef firing) :=
  .cancelWaiting fun x hx => by
    simp only [decide_eq_true_eq] at hx
    exact hx.2.1

theorem Final.clearChildren (P : Pool) (parent : Nat) : Final P (P.clearChildren parent) :=
  .cancelWaiting fun x hx => by
    simp only [decide_eq_true_eq] at hx
    exact hx.2

theorem Final.clearSiblings (P : Pool) (w : Token) : Final P (P.clearSiblings w) := by
  unfold Pool.clearSiblings
  cases w.parentTokenId with
  | none => exact .refl P
  | some parent =>
    refine .cancelWaiting fun x hx => ?_
    simp only [decide_eq_true_eq] at hx
    exact hx.2.2

theorem Final.clearScope (P : Pool) (s : String) (t : Token) : Final P (P.clearScope s t) := by
  refine Final.trans (.cancelAll
    (p := fun x => x.id ≠ t.id ∧ x.subProcessInstanceId = some s ∧ x.live)
    fun x _ hp => ?_) (.of_eq rfl rfl)
  simp only [decide_eq_true_eq] at hp
  exact Token.not_finished_of_live hp.2.2

theorem Spawned.final {α : Type} {R : α → Token → Prop} {items : List α}
    (h : Spawned R items P P') : Final P P' := by
  obtain ⟨news, n, -, -, rfl⟩ := h
  exact ⟨fun x hx _ => List.mem_append_left _ hx, fun id hid => Or.inl hid⟩

/-! ## On whose behalf tokens are made -/

/-- The token on whose behalf a new token is made. -/
def Origin.source : Origin → Option Token
  | .start => none
  | .flow src _ => some src
  | .boundary host _ => some host
  | .inner outer _ => some outer
  | .child parent _ => some parent
  | .handler source _ _ => some source
  | .branch gate _ => some gate

/-- The new token takes the place of its source, which has moved on. -/
def Origin.moves : Origin → Bool
  | .flow _ _ | .branch _ _ => true
  | _ => false

/-- What is finished in `P` stays so; the sources of the new tokens are among those of `L`, and a
source that moves on is finished. -/
structure Fair (L : Nat → Prop) (P Q : Pool) (origins : List Origin) : Prop where
  final : Final P Q
  sources : ∀ o ∈ origins, ∀ src, o.source = some src → L src.id
  moved : ∀ o ∈ origins, o.moves = true → ∀ src, o.source = some src →
    ∃ y ∈ Q.tokens, y.id = src.id ∧ y.Finished

variable {L : Nat → Prop}

namespace Fair

theorem nil (h : Final P Q) : Fair L P Q [] := ⟨h, by simp, by simp⟩

theorem after (h : Final P Q) (h' : Fair L Q R origins) : Fair L P R origins :=
  ⟨h.trans h'.final, h'.sources, h'.moved⟩

theorem of_eq (h : Fair L P Q origins) (ht : R.tokens = Q.tokens) (hc : R.cancelled = Q.cancelled) :
    Fair L P R origins :=
  ⟨h.final.trans (.of_eq ht hc), h.sources, ht ▸ h.moved⟩

theorem onFlows (h : Final P Q) {src : Token} (hL : L src.id) {y : Token} (hy : y ∈ Q.tokens)
    (hid : y.id = src.id) (hfin : y.Finished) (flows : List String) :
    Fair L P Q (onFlows src flows) := by
  refine ⟨h, fun o ho x hx => ?_, fun o ho _ x hx => ?_⟩
  · obtain ⟨flowId, -, rfl⟩ := List.mem_map.1 ho
    cases hx
    exact hL
  · obtain ⟨flowId, -, rfl⟩ := List.mem_map.1 ho
    cases hx
    exact ⟨y, hy, hid, hfin⟩

/-- None of the sources moves on. -/
theorem of_stays (h : Final P Q) (hL : ∀ o ∈ origins, ∀ src, o.source = some src → L src.id)
    (hstays : ∀ o ∈ origins, o.moves = false) : Fair L P Q origins :=
  ⟨h, hL, fun o ho hm => by simp [hstays o ho] at hm⟩

end Fair

/-- A waiting token is finished, and moves on. -/
theorem Fair.finish (hP : P.ids.Nodup) {w : Token} (hw : w ∈ P.tokens)
    (hwaiting : w.status = .waiting) (hL : L w.id) (flows : List String) :
    Fair L P (P.finish w) (NexusWorkflow.onFlows w flows) :=
  .onFlows (.finish hP hw (Token.not_finished_of_waiting hwaiting)) hL (Pool.mem_finish hw) rfl
    (Or.inl rfl) flows

/-! ## The rules -/

/-- The waiting tokens may act. -/
def WaitingIn (L : Nat → Prop) (P : Pool) : Prop := ∀ x ∈ P.tokens, x.status = .waiting → L x.id

theorem SubEnd.fair {s : String} (hP : P.ids.Nodup) (hL : WaitingIn L P)
    (h : SubEnd d s P Q origins) : Fair L P Q origins := by
  cases h with
  | busy _ => exact .nil (.refl P)
  | orphan _ _ => exact .nil (.refl P)
  | complete _ houter _ =>
    obtain ⟨hm, -, hw⟩ := Pool.waitingAt_eq_some houter
    exact .finish hP hm hw (hL _ hm hw) _

theorem FireCancel.fair {s : String} {outer : Token} (hP : P.ids.Nodup) (hL : WaitingIn L P)
    (ho : outer ∈ P.tokens) (how : outer.status = .waiting) (h : FireCancel d s outer P Q origins) :
    Fair L P Q origins := by
  cases h with
  | none _ => exact .nil (.refl P)
  | unarmed _ _ => exact .nil (.refl P)
  | @fire b hb w hw =>
    obtain ⟨hm, -, hww⟩ := Pool.waitingAt_eq_some hw
    have hfin := Final.finish hP hm (Token.not_finished_of_waiting hww)
    by_cases hid : outer.id = w.id
    · -- the transaction and its boundary event are one element, and the token is cancelled
      obtain rfl : outer = w := Pool.eq_of_id hP ho hm hid
      have hone : (P.finish outer).cancelOne outer = P.cancelOne outer := by
        have hput := put_put P (a := { outer with status := .completed })
          (b := { outer with status := .cancelled }) rfl
        unfold Pool.cancelOne Pool.finish
        rw [hput]
        rfl
      rw [hone]
      exact .onFlows (.cancelOne hP ho (Token.not_finished_of_waiting how)) (hL _ ho how)
        (List.mem_map.2 ⟨outer, ho, by simp [Pool.update]⟩ :
          { outer with status := .cancelled } ∈ (P.cancelOne outer).tokens) rfl (Or.inr rfl) _
    · have hmem : outer ∈ (P.finish w).tokens := Pool.mem_put_of_ne ho hid
      have hnd := (Frame.finish hP (Pool.holds_of_mem hm)).nodup hP
      have hcan := Final.cancelOne hnd hmem (Token.not_finished_of_waiting how)
      exact .onFlows (hfin.trans hcan) (hL _ hm hww)
        (hcan.keeps _ (Pool.mem_finish hm) (Or.inl rfl)) rfl (Or.inl rfl) _

theorem WaitingIn.cancelAll (hL : WaitingIn L P) (p : Token → Bool) : WaitingIn L (P.cancelAll p) :=
  fun x hx hw => hL x (waiting_of_mem_cancelAll hx hw) hw

theorem WaitingIn.finish (hL : WaitingIn L P) (t : Token) : WaitingIn L (P.finish t) :=
  fun x hx hw => hL x (waiting_of_mem_put (t := { t with status := .completed }) (by simp) hx hw) hw

theorem TxCancel.fair {s : String} {t : Token} (hP : P.ids.Nodup) (hL : WaitingIn L P) (ht : L t.id)
    (h : TxCancel d s t P Q origins) : Fair L P Q origins := by
  have hclear := Final.clearScope P s t
  have hLc : WaitingIn L (P.clearScope s t) := hL.cancelAll _
  cases h with
  | compensate _ =>
    refine .of_stays hclear (fun o ho src hsrc => ?_) fun o ho => ?_
    all_goals
      obtain ⟨r, -, hr⟩ := List.mem_filterMap.1 ho
      obtain ⟨e, -, rfl⟩ := Option.map_eq_some_iff.1 hr
    · cases hsrc
      exact ht
    · rfl
  | orphan _ _ => exact .nil hclear
  | fire _ houter hfire =>
    obtain ⟨hm, -, hw⟩ := Pool.waitingAt_eq_some houter
    exact .after hclear (hfire.fair ((Frame.clearScope P s t).nodup hP) hLc hm hw)

theorem Ends.fair {t : Token} {e : EventElement} (hP : P.ids.Nodup) (hL : WaitingIn L P)
    (ht : L t.id) (h : Ends d t P e Q origins) : Fair L P Q origins := by
  cases h with
  | cancelTop _ _ => exact .nil (.refl P)
  | cancel _ _ h => exact h.fair hP hL ht
  | terminate _ =>
    refine .nil (Final.trans (.cancelAll (p := fun x => x.id ≠ t.id ∧ x.live) fun x _ hp => ?_)
      (.of_eq rfl rfl))
    simp only [decide_eq_true_eq] at hp
    exact Token.not_finished_of_live hp.2
  | inner _ _ _ h => exact h.fair hP hL
  | last _ _ _ _ _ => exact .nil (.of_eq rfl rfl)
  | more _ _ _ _ => exact .nil (.refl P)

/-- The parent of the token is waiting. -/
def Pool.ParentWaits (P : Pool) (c : Token) : Prop :=
  (c.parentTokenId.bind P.get?).all (fun p : Token => p.status = .waiting)

/-- Another token with the same parent is not finished. -/
def Pool.SiblingLeft (P : Pool) (c : Token) : Prop :=
  ∃ t ∈ P.tokens, t.parentTokenId = c.parentTokenId ∧ t.id ≠ c.id ∧ ¬ t.Finished

/-- The completion of the child finishes no parent that is finished: the parent is waiting, or its
other children are waited for. -/
def Pool.SparesParent (P : Pool) (lc : MultiInstanceLoopCharacteristics) (c : Token) : Prop :=
  P.ParentWaits c ∨
    lc.isSequential = false ∧ truthy lc.completionCondition = none ∧ P.SiblingLeft c

/-- While a sibling is left, not all children are finished when the token is. -/
theorem Pool.SiblingLeft.not_all {c p : Token} (h : P.SiblingLeft c)
    (hp : c.parentTokenId = some p.id) : ¬ (P.finish c).ChildrenFinished p.id := fun hall => by
  obtain ⟨t, ht, hparent, hne, hnot⟩ := h
  exact hnot (hall t (Pool.mem_put_of_ne ht hne) (hparent.trans hp))

theorem Pool.parent_of_bind {c p : Token} (h : c.parentTokenId.bind P.get? = some p) :
    c.parentTokenId = some p.id := by
  obtain ⟨i, hi, hget⟩ := Option.bind_eq_some_iff.1 h
  rw [hi, (Pool.get?_eq_some hget).2]

/-- A child of a multi-instance activity completes. -/
theorem ChildDone.fair {c : Token} {e : BpmnFlowElement} {lc : MultiInstanceLoopCharacteristics}
    {hand : List Token} (hP : P.Coherent hand) (hL : WaitingIn L P) (hc : c ∈ P.tokens)
    (hnot : ¬ c.Finished) (hspares : P.SparesParent lc c) (h : ChildDone c e lc P Q origins) :
    Fair L P Q origins := by
  have hfin := Final.finish hP.nodup hc hnot
  have hframe := Frame.finish hP.nodup (Pool.holds_of_mem hc)
  have hnd := hframe.nodup hP.nodup
  -- a parent that waits is an older token, and still waits when the child is finished
  have hpar : ∀ p, c.parentTokenId.bind P.get? = some p → P.ParentWaits c →
      p ∈ (P.finish c).tokens ∧ p.status = .waiting ∧ L p.id ∧ p.id < c.id := by
    intro p hp hparent
    obtain ⟨hm, hlt, -⟩ := hP.of_get?_parent (Pool.holds_of_mem hc) hp
    have hw : p.status = .waiting := by simpa [Pool.ParentWaits, hp] using hparent
    exact ⟨Pool.mem_put_of_ne hm hlt.ne, hw, hL p hm hw, hlt⟩
  have hclose : ∀ {S : Pool} (p : Token), Final P S → S.ids.Nodup → p ∈ S.tokens →
      p.status = .waiting → L p.id → Fair L P (S.closeLoop p e.id) (onFlows p e.outgoingFlows) := by
    intro S p hS hSnd hp hw hLp
    have hSp := Final.finish hSnd hp (Token.not_finished_of_waiting hw)
    have hclear := Final.clearBoundaries (S.finish p) e.id
    exact .onFlows ((hS.trans hSp).trans hclear) hLp
      (hclear.keeps _ (Pool.mem_finish hp) (Or.inl rfl)) rfl (Or.inl rfl) _
  cases h with
  | orphan _ => exact .nil (.refl P)
  | noLoop _ _ _ => exact .nil hfin
  | @next p hp hseq _ loopState =>
    have hparent := hspares.resolve_right fun h => by simp [hseq] at h
    obtain ⟨hm, hw, hLp, -⟩ := hpar p hp hparent
    have hput := Final.put hnd (t := { p with loopState := some loopState }) hm rfl
      (Token.not_finished_of_waiting hw)
    refine .of_stays (hfin.trans hput) (fun o ho src hsrc => ?_) fun o ho => ?_
    · rw [List.mem_singleton.1 ho] at hsrc
      cases hsrc
      exact hLp
    · rw [List.mem_singleton.1 ho]
      rfl
  | @lastItem p hp hseq _ =>
    have hparent := hspares.resolve_right fun h => by simp [hseq] at h
    obtain ⟨hm, hw, hLp, -⟩ := hpar p hp hparent
    exact hclose p hfin hnd hm hw hLp
  | @condition p hp _ hcond =>
    have hparent := hspares.resolve_right fun h => hcond h.2.1
    obtain ⟨hm, hw, hLp, hlt⟩ := hpar p hp hparent
    have hclear := Final.clearChildren (P.finish c) p.id
    have hcframe := Frame.clearChildren (P.finish c) p.id
    refine hclose p (hfin.trans hclear) (hcframe.nodup hnd) ?_ hw hLp
    -- no token is its own parent
    refine Pool.mem_cancelAll_of_not hm (decide_eq_false fun hself => ?_)
    obtain ⟨hmP, -, -⟩ := hP.of_get?_parent (Pool.holds_of_mem hc) hp
    exact absurd (hP.parents p hmP p.id hself.1).2.1 (lt_irrefl _)
  | @allDone p hp _ hall =>
    have hparent := hspares.resolve_right fun h => h.2.2.not_all (Pool.parent_of_bind hp) hall
    obtain ⟨hm, hw, hLp, -⟩ := hpar p hp hparent
    exact hclose p hfin hnd hm hw hLp
  | wait _ _ _ => exact .nil hfin

/-- The token stands at a cancel end event inside a sub-process. -/
def Token.atInnerCancel (d : ProcessDefinition) (t : Token) : Bool :=
  (truthy t.subProcessInstanceId).isSome &&
    match d.getElement t.elementId with
    | .ok e => e.isCancelEnd
    | .error _ => false

/-- A compensation handler completes: the throw event that started it is waiting, or was a cancel
end event, or waits for another handler. -/
theorem HandlerDone.fair {h throwToken : Token} (hP : P.Coherent []) (hL : WaitingIn L P)
    (hh : h ∈ P.tokens) (hw : h.status = .waiting) (hth : throwToken ∈ P.tokens)
    (hlt : throwToken.id < h.id) (hparent : h.parentTokenId = some throwToken.id)
    (hsource : throwToken.status = .waiting ∨ throwToken.atInnerCancel d ∨ P.SiblingLeft h)
    (hd : HandlerDone d h throwToken P Q origins) : Fair L P Q origins := by
  have hfin := Final.finish hP.nodup hh (Token.not_finished_of_waiting hw)
  have hnd := (Frame.finish hP.nodup (Pool.holds_of_mem hh)).nodup hP.nodup
  cases hd with
  | wait _ => exact .nil hfin
  | orphan _ _ _ _ _ => exact .nil hfin
  | fire _ _ _ _ houter hfire =>
    obtain ⟨hm, -, hww⟩ := Pool.waitingAt_eq_some houter
    exact .after hfin (hfire.fair hnd (hL.finish h) hm hww)
  | advance hall he hc =>
    have hthw : throwToken.status = .waiting := by
      refine hsource.resolve_right fun hother => ?_
      have hcancel := hother.resolve_right fun hleft => hleft.not_all hparent hall
      simp only [Token.atInnerCancel, he, Bool.and_eq_true] at hcancel
      rcases hc with hc | hc
      · simp [hc] at hcancel
      · simp [hc] at hcancel
    exact .after hfin (.finish hnd (Pool.mem_put_of_ne hth hlt.ne) hthw (hL _ hth hthw) _)

theorem Parks.source {t : Token} {e : BpmnFlowElement} {condition : WaitCondition}
    {loopState : Option LoopState} {records : List CompensationRecord}
    (h : Parks d P t e condition loopState origins records) :
    ∀ o ∈ origins, o.source = some t ∧ o.moves = false := by
  intro o ho
  cases h with
  | serviceTask _ _ | userTask _ _ =>
    obtain ⟨b, -, rfl⟩ := List.mem_map.1 ho
    exact ⟨rfl, rfl⟩
  | scriptTask _ _ | catchEvent _ _ | boundaryEvent _ _ => cases ho
  | sequential _ _ _ _ _ =>
    rw [List.mem_singleton.1 ho]
    exact ⟨rfl, rfl⟩
  | parallel _ _ _ _ n =>
    rw [List.eq_of_mem_replicate ho]
    exact ⟨rfl, rfl⟩
  | subProcess _ isTransaction _ _ _ =>
    rcases List.mem_append.1 ho with ho | ho
    · split_ifs at ho
      · obtain ⟨b, -, rfl⟩ := List.mem_map.1 ho
        exact ⟨rfl, rfl⟩
      · cases ho
    · rw [List.mem_singleton.1 ho]
      exact ⟨rfl, rfl⟩
  | throwEvent _ _ _ =>
    obtain ⟨r, -, hr⟩ := List.mem_filterMap.1 ho
    obtain ⟨e, -, rfl⟩ := Option.map_eq_some_iff.1 hr
    exact ⟨rfl, rfl⟩

/-- Processing the token finishes no parent that is finished: only manual tasks complete at once. -/
def Pool.Processable (d : ProcessDefinition) (P : Pool) (t : Token) : Prop :=
  match d.getElement t.elementId with
  | .ok (.manualTask e) =>
      match e.loopCharacteristics, t.parentTokenId with
      | some lc, some _ => P.SparesParent lc t
      | _, _ => True
  | _ => True

/-- A turn of a token that is still active. -/
theorem Turn.fair {t : Token} (hP : P.Coherent [t]) (hL : WaitingIn L P) (hLt : L t.id)
    (ht : t ∈ P.tokens) (hok : P.Processable d t) (h : Turn d P t Q origins) :
    Fair L P Q origins := by
  have hactive : t.status = .active := (hP.inFlight t List.mem_cons_self).1
  have hnot : ¬ t.Finished := by simp [Token.Finished, hactive]
  have hfin := Final.finish hP.nodup ht hnot
  have hnd := (Frame.finish hP.nodup (Pool.holds_of_mem ht)).nodup hP.nodup
  cases h with
  | @pass _ _ flows _ _ _ =>
    have hmoves := Fair.onFlows hfin hLt (Pool.mem_finish ht) rfl (Or.inl rfl) flows
    exact hmoves.of_eq rfl rfl
  | @park _ _ condition loopState _ _ hpark =>
    refine .of_stays (Final.trans (.put hP.nodup (t := { t with
      status := .waiting, waitingFor := some condition, loopState }) ht rfl hnot) (.of_eq rfl rfl))
        ?_ ?_
    · intro o ho src hsrc
      rw [(hpark.source o ho).1] at hsrc
      cases hsrc
      exact hLt
    · exact fun o ho => (hpark.source o ho).2
  | branch _ _ _ =>
    refine ⟨hfin, fun o ho src hsrc => ?_, fun o ho _ src hsrc => ?_⟩
    all_goals
      obtain ⟨f, -, rfl⟩ := List.mem_map.1 ho
      cases hsrc
    · exact hLt
    · exact ⟨_, Pool.mem_finish ht, rfl, Or.inl rfl⟩
  | ends _ h => exact .after hfin (h.fair hnd (hL.finish t) hLt)
  | child he hlc hsome h =>
    obtain ⟨p, hp⟩ := Option.ne_none_iff_exists'.1 hsome
    simp only [Pool.Processable, he, hlc, hp] at hok
    exact h.fair hP hL ht hnot hok

/-- Completing the token finishes no token that is finished already. -/
def Pool.Completable (d : ProcessDefinition) (P : Pool) (w : Token) : Prop :=
  w.hostTaskId ≠ some w.elementId ∧
  match d.getElement w.elementId with
  | .error _ => True
  | .ok e =>
      match P.role w e with
      | .plain => True
      | .child lc => P.SparesParent lc w
      | .handler throwToken =>
          throwToken.status = .waiting ∨ throwToken.atInnerCancel d ∨ P.SiblingLeft w

instance (P : Pool) (lc : MultiInstanceLoopCharacteristics) (c : Token) :
    Decidable (P.SparesParent lc c) := by
  unfold Pool.SparesParent Pool.ParentWaits Pool.SiblingLeft
  infer_instance

instance (P : Pool) (t : Token) : Decidable (P.Processable d t) := by
  unfold Pool.Processable
  rcases d.getElement t.elementId with _ | e
  · infer_instance
  · rcases e with _ | _ | _ | _ | _ | _ | _ | _ | e | _ | _ | _ <;> try infer_instance
    dsimp only
    rcases e.loopCharacteristics with _ | _ <;> rcases t.parentTokenId with _ | _ <;> infer_instance

instance (P : Pool) (w : Token) : Decidable (P.Completable d w) := by
  unfold Pool.Completable
  refine @instDecidableAnd _ _ _ ?_
  rcases d.getElement w.elementId with _ | e
  · infer_instance
  · unfold Pool.SiblingLeft
    dsimp only
    rcases P.role w e with _ | _ | _ <;> infer_instance

theorem Complete.fair {w : Token} (hP : P.Coherent []) (hL : WaitingIn L P) (hw : w ∈ P.tokens)
    (hwaiting : w.status = .waiting) (hok : P.Completable d w) (h : Complete d P w Q origins) :
    Fair L P Q origins := by
  have hr : P.autoResume.Coherent [] := hP.of_eq rfl rfl rfl
  have hfinal : Final P P.autoResume := .of_eq rfl rfl
  obtain ⟨hself, hok⟩ := hok
  cases h with
  | child he hrole h =>
    simp only [he, hrole] at hok
    exact .after hfinal (h.fair hr hL hw (Token.not_finished_of_waiting hwaiting) hok)
  | @handler e he th hrole _ _ h =>
    simp only [he, hrole] at hok
    obtain ⟨hm, hlt, -⟩ := hP.of_get?_parent (Pool.holds_of_mem hw) (Pool.holds_of_role hrole)
    have hparent := Pool.parent_of_bind (Pool.holds_of_role hrole)
    exact .after hfinal (h.fair hr hL hw hwaiting hm hlt hparent hok)
  | @plain e _ _ records _ =>
    have hclear := hfinal.trans (Final.clearBoundaries _ w.elementId)
    have hmem : w ∈ (P.autoResume.clearBoundaries w.elementId).tokens :=
      Pool.mem_cancelAll_of_not hw (decide_eq_false fun h => hself h.2.2)
    have hnd := (Frame.clearBoundaries P.autoResume w.elementId).nodup hr.nodup
    have hfin := Final.finish hnd hmem (Token.not_finished_of_waiting hwaiting)
    have hmoves := Fair.onFlows (hclear.trans hfin) (hL w hw hwaiting) (Pool.mem_finish hmem) rfl
      (Or.inl rfl) e.outgoingFlows
    exact hmoves.of_eq rfl rfl

theorem Resume.fair {w : Token} (hP : P.ids.Nodup) (hL : WaitingIn L P) (hw : w ∈ P.tokens)
    (hwaiting : w.status = .waiting) (h : Resume d P w Q origins) : Fair L P Q origins := by
  obtain ⟨-⟩ := h
  have hfin := Final.finish hP hw (Token.not_finished_of_waiting hwaiting)
  have hclear := Final.clearSiblings (P.finish w) w
  exact .onFlows (hfin.trans hclear) (hL w hw hwaiting)
    (hclear.keeps _ (Pool.mem_finish hw) (Or.inl rfl)) rfl (Or.inl rfl) _

theorem Deed.fair {command : EngineCommand} (hP : P.Coherent []) (hL : WaitingIn L P)
    (hok : command.Completing (Pool.Completable d) P) (h : Deed d P command Q origins) :
    Fair L P Q origins := by
  cases h with
  | startProcess _ _ _ =>
    refine .of_stays (.of_eq rfl rfl) (fun o ho src hsrc => ?_) fun o ho => ?_
    · rw [List.mem_singleton.1 ho] at hsrc
      cases hsrc
    · rw [List.mem_singleton.1 ho]
      rfl
  | completeServiceTask _ hw hwaiting h =>
    exact h.fair hP hL hw hwaiting (hok _ hw rfl)
  | completeUserTask _ _ hw hwaiting h =>
    exact h.fair hP hL hw hwaiting (hok _ hw rfl)
  | @failCaught _ _ w hw hwaiting b _ =>
    have hcan := Final.cancelOne hP.nodup hw (Token.not_finished_of_waiting hwaiting)
    have hclear := Final.clearHost (P.cancelOne w) w.elementId none
    have hmem : { w with status := .cancelled } ∈ (P.cancelOne w).tokens :=
      List.mem_map.2 ⟨w, hw, by simp [Pool.update]⟩
    exact .onFlows (hcan.trans hclear) (hL w hw hwaiting) (hclear.keeps _ hmem (Or.inr rfl)) rfl
      (Or.inr rfl) _
  | failUncaught _ _ _ _ => exact .nil (.of_eq rfl rfl)
  | @fireInterrupting w hw hwaiting _ b _ _ =>
    have hfin := Final.finish hP.nodup hw (Token.not_finished_of_waiting hwaiting)
    have hclear := Final.clearHost (P.finish w) b.attachedToRef (some w.id)
    exact .onFlows (hfin.trans hclear) (hL w hw hwaiting)
      (hclear.keeps _ (Pool.mem_finish hw) (Or.inl rfl)) rfl (Or.inl rfl) _
  | fireBoundary hw hwaiting _ _ _ => exact .finish hP.nodup hw hwaiting (hL _ hw hwaiting) _
  | @fireCatch w hw hwaiting htype _ _ h =>
    exact .after (.clearSiblings P w) (h.fair (hP.clearSiblings w)
      (fun x hx hxw => hL x (waiting_of_mem_clearSiblings hx hxw) hxw) (mem_clearSiblings_self hw)
      hwaiting (hok w hw rfl htype))
  | suspendInstance _ => exact .nil (.of_eq rfl rfl)
  | resumeInstance _ => exact .nil (.of_eq rfl rfl)
  | cancelInstance =>
    exact .nil (Final.trans (.cancelAll (p := Token.live) fun _ _ hp =>
      Token.not_finished_of_live hp) (.of_eq rfl rfl))

/-! ## The new tokens of a step -/

theorem Made.bare {o : Origin} {t : Token} (h : Made d o t) : t.bare = t := by
  obtain ⟨_, _, _, _, _, h⟩ := h.eq_newToken
  rw [h]
  rfl

/-- The tokens of `P` are still there, and there is a list of origins that is used up by the new
ones, each origin by one of them: they are made on behalf of tokens of `L`, and one that moves on is
finished. -/
def Grown (d : ProcessDefinition) (L : Nat → Prop) (P P' : Pool) : Prop :=
  ∃ origins news, P'.places = P.places ++ news ∧ List.Forall₂ (Made d) origins news ∧
    ∀ o ∈ origins, ∀ src, o.source = some src →
      L src.id ∧ (o.moves = true → ∃ y ∈ P'.tokens, y.id = src.id ∧ y.Finished)

theorem Grown.refl (P : Pool) : Grown d L P P := ⟨[], [], by simp, .nil, by simp⟩

theorem Grown.of_fair (hframe : Frame P Q) (hfair : Fair L P Q origins)
    (hmade : Spawned (Made d) origins Q P') : Grown d L P P' := by
  have hfinal := hmade.final
  obtain ⟨news, n, hR, -, rfl⟩ := hmade
  refine ⟨origins, news, ?_, hR, fun o ho src hsrc =>
    ⟨hfair.sources o ho src hsrc, fun hmoves => ?_⟩⟩
  · have hbare : news.map Token.bare = news := by
      rw [List.map_congr_left fun b hb => ?_, List.map_id]
      obtain ⟨o, -, hob⟩ := exists_of_forall₂_right hR hb
      exact hob.bare
    simp only [Pool.places, Pool.spawn, List.map_append, hbare]
    rw [show Q.tokens.map Token.bare = P.tokens.map Token.bare from hframe.places]
  · obtain ⟨y, hy, hid, hfin⟩ := hfair.moved o ho hmoves src hsrc
    exact ⟨y, hfinal.keeps y hy hfin, hid, hfin⟩

theorem Grown.trans (h : Grown d L P Q) (hfinal : Final Q R) (h' : Grown d L Q R) :
    Grown d L P R := by
  obtain ⟨origins, news, hnews, hmade, hsources⟩ := h
  obtain ⟨origins', more, hmore, hmade', hsources'⟩ := h'
  refine ⟨origins ++ origins', news ++ more, by rw [hmore, hnews, List.append_assoc],
    List.rel_append hmade hmade', fun o ho src hsrc => ?_⟩
  rcases List.mem_append.1 ho with ho | ho
  · obtain ⟨hlive, hmoved⟩ := hsources o ho src hsrc
    refine ⟨hlive, fun hmoves => ?_⟩
    obtain ⟨y, hy, hid, hfin⟩ := hmoved hmoves
    exact ⟨y, hfinal.keeps y hy hfin, hid, hfin⟩
  · exact hsources' o ho src hsrc

theorem Resumes.grown {targets : List Token} (hP : P.Coherent []) (hL : WaitingIn L P)
    (h : Resumes d targets P P') : Final P P' ∧ Grown d L P P' := by
  induction h with
  | nil P => exact ⟨.refl P, .refl P⟩
  | skip _ _ _ ih => exact ih hP hL
  | @resume w rest P P' hw hwaiting Q mid origins hresume hmade _ ih =>
    have hfair := hresume.fair hP.nodup hL hw hwaiting
    have hmid := hfair.final.trans hmade.final
    have hLmid : WaitingIn L mid := by
      intro x hx hxw
      have hxQ := waiting_of_spawned hmade hx hxw
      obtain ⟨-⟩ := hresume
      have hxf := waiting_of_mem_clearSiblings hxQ hxw
      exact (hL.finish w) x hxf hxw
    obtain ⟨hfinal, hgrown⟩ := ih ((hresume.ready hP hw hwaiting).spawned hmade) hLmid
    refine ⟨hmid.trans hfinal, Grown.trans ?_ hfinal hgrown⟩
    exact .of_fair (hresume.frame hP.nodup (Pool.holds_of_mem hw)) hfair hmade

theorem Commanded.grown {command : EngineCommand} (hP : P.Coherent []) (hL : WaitingIn L P)
    (hok : command.Completing (Pool.Completable d) P) (h : Commanded d P command P') :
    Final P P' ∧ Grown d L P P' := by
  cases h with
  | deed hd hmade =>
    have hfair := hd.fair hP hL hok
    exact ⟨hfair.final.trans hmade.final, .of_fair (hd.frame hP.nodup) hfair hmade⟩
  | deliverMessage _ _ hr => exact hr.grown hP hL
  | broadcastSignal _ _ hr => exact hr.grown hP hL

theorem Turned.grown {t : Token} (hP : P.Coherent [t]) (hL : WaitingIn L P) (hLt : L t.id)
    (ht : t ∈ P.tokens) (hok : P.Processable d t) (h : Turned d P t P') :
    Final P P' ∧ Grown d L P P' := by
  obtain ⟨Q, origins, hturn, hmade⟩ := h
  have hfair := hturn.fair hP hL hLt ht hok
  exact ⟨hfair.final.trans hmade.final,
    .of_fair (hturn.frame hP.nodup (Pool.holds_of_mem ht)) hfair hmade⟩

/-! ## Finality over a call -/

/-- The token has that id and is live. -/
def Pool.Lives (P : Pool) (id : Nat) : Prop := ∃ x ∈ P.tokens, x.id = id ∧ x.live = true

theorem Pool.waitingIn_lives (P : Pool) : WaitingIn P.Lives P := fun x hx hw =>
  ⟨x, hx, rfl, by simp [Token.live, hw]⟩

/-- The step acts on tokens that are not finished: the token taken from the queue was not cancelled
there, and what completes has not got a finished parent. -/
def Step.ActsOnLive (d : ProcessDefinition) (st : Step) : Prop :=
  match st.action with
  | .command command => command.Completing (Pool.Completable d) st.before.pool
  | .process t =>
      (∃ x ∈ st.before.pool.tokens, x.id = t.id ∧ x.status = .active) ∧
        st.before.pool.Processable d t.erase

instance (st : Step) : Decidable (st.ActsOnLive d) := by
  unfold Step.ActsOnLive
  rcases st.action with _ | _ <;> infer_instance

/-- The step makes tokens on behalf of live tokens only, one for each origin, and a token that moves
on is finished. -/
def Step.GrowsFromLive (d : ProcessDefinition) (st : Step) : Prop :=
  Grown d st.before.pool.Lives st.before.pool st.after.pool

theorem turned_grown {before : ExecutionContext} {t : Token} {P' : Pool}
    (hP : before.pool.Coherent [t.erase])
    (hlive : (∃ x ∈ before.pool.tokens, x.id = t.id ∧ x.status = .active) ∧
      before.pool.Processable d t.erase)
    (h : Turned d before.pool t.erase P') :
    Final before.pool P' ∧ Grown d before.pool.Lives before.pool P' := by
  have ht := hP.mem_of_active hlive.1
  refine h.grown hP (Pool.waitingIn_lives _) ⟨_, ht, rfl, ?_⟩ ht hlive.2
  exact (Token.live_iff _).2 (Or.inl (hP.inFlight _ List.mem_cons_self).1)

/-- The claim about a call: what was finished stays as it was, nothing is made on its behalf, and
what is reported as cancelled is cancelled. -/
def KeepsFinished (d : ProcessDefinition) (fuel : Nat) (command : EngineCommand)
    (state : Option EngineState) (options : ExecuteOptions) (result : EngineResult) : Prop :=
  (∀ t ∈ givenTokens state, t.Finished →
    ∃ t' ∈ result.newState.tokens, t'.id = t.id ∧ t'.status = t.status) ∧
  (∀ st ∈ cycleSteps d fuel command state options, st.GrowsFromLive d) ∧
  ∀ id ∈ cancelledIds result.events,
    ∃ t ∈ result.newState.tokens, t.id = id ∧ t.status = .cancelled

/-- A call whose steps act on tokens that are not finished keeps what is finished. -/
theorem keepsFinished_of_actsOnLive {steps : List Step} {fuel : Nat} {command : EngineCommand}
    {state : Option EngineState} {options : ExecuteOptions} {result : EngineResult}
    (call : Call d steps command state options)
    (hok : execute d fuel command state options = .ok result)
    (hlive : ∀ st ∈ cycleSteps d fuel command state options, st.ActsOnLive d) :
    KeepsFinished d fuel command state options result := by
  obtain ⟨htrace, htokens⟩ := call.trace
  obtain ⟨ctx, inst, hfinal, hstate, hevents⟩ := call.maintains
    (I := Final (ExecutionContext.create state options).pool) hok hlive
    (fun after hst hcoh hcmd => (hcmd.grown hcoh (Pool.waitingIn_lives _) hst).1)
    fun before t after hst hcoh hI hturned =>
      have hpop : Final (before.pool.push t.erase) before.pool := .of_eq rfl rfl
      hI.trans (hpop.trans (turned_grown hcoh hst hturned).1)
  refine ⟨?_, ?_, ?_⟩
  · intro t ht hfin
    rw [← htokens] at ht
    have hmem := hfinal.keeps t.erase (ExecutionContext.mem_pool _ ht) hfin
    obtain ⟨t', ht', herase⟩ := List.mem_map.1 hmem
    refine ⟨t', by rw [hstate]; exact ht', ?_, ?_⟩
    · simpa using congrArg Token.id herase
    · simpa using congrArg Token.status herase
  · intro st hst
    obtain ⟨pre, post, hsplit⟩ := List.append_of_mem hst
    obtain ⟨ctx', _, htrace', -, -, -, -⟩ := (call.run hok).trace
    have hsteps : steps ++ cycleSteps d fuel command state options =
        (steps ++ pre) ++ st :: post := by rw [hsplit, List.append_assoc]
    have hacts := hlive st hst
    unfold Step.ActsOnLive at hacts
    cases hact : st.action with
    | command c =>
      obtain ⟨-, -, hcoh, hcmd⟩ := htrace'.split_command hsteps hact
      rw [hact] at hacts
      exact (hcmd.grown hcoh (Pool.waitingIn_lives _) hacts).2
    | process t =>
      obtain ⟨-, -, -, hcoh, hturned⟩ := htrace'.split_process hsteps hact
      rw [hact] at hacts
      exact (turned_grown hcoh hacts hturned).2
  · intro id hid
    have hid' : id ∈ ctx.pool.cancelled := by rwa [hevents] at hid
    rcases hfinal.reported id hid' with hold | ⟨y, hy, hyid, hcancelled⟩
    · cases hold
    · obtain ⟨t, ht, rfl⟩ := List.mem_map.1 hy
      exact ⟨t, by rw [hstate]; exact ht, hyid, hcancelled⟩

/-! ## A transaction is cancelled while a multi-instance activity runs inside -/

open Diagram

/-- The fallback task is completed, and the cancelled tokens stay cancelled. -/
theorem keepsFinished_fallback : ∃ (r : Replay) (result : EngineResult),
    (∃ t ∈ r.state.tokens, t.status = .cancelled) ∧
    KeepsFinished cancelledLoop 20 (.completeUserTask 14 "" none) (some r.state)
      (stopped twoItems r.nextId) result := by
  obtain ⟨r, result, hcall, hok, htest⟩ := exists_call_of_replay cancelledLoop twoItems 20 none []
    (.completeUserTask 14 "" none) (fun r _ => (∃ t ∈ r.state.tokens, t.status = .cancelled) ∧
      ∀ st ∈ cycleSteps cancelledLoop 20 (.completeUserTask 14 "" none) (some r.state)
        (stopped twoItems r.nextId), st.ActsOnLive cancelledLoop) (by decide +kernel)
  obtain ⟨hcancelled, hlive⟩ := of_decide_eq_true htest
  exact ⟨r, result, hcancelled, keepsFinished_of_actsOnLive hcall hok hlive⟩

/-- Token 8 stood at the multi-instance task and was cancelled with the transaction; its children
were not, and when the last of them completes the token does, too. -/
theorem not_keepsFinished_cancelledLoop : ∃ (r : Replay) (result : EngineResult),
    Call cancelledLoop r.steps (.completeUserTask 13 "" none) (some r.state)
      (stopped twoItems r.nextId) ∧
    execute cancelledLoop 20 (.completeUserTask 13 "" none) (some r.state)
      (stopped twoItems r.nextId) = .ok result ∧
    ¬ KeepsFinished cancelledLoop 20 (.completeUserTask 13 "" none) (some r.state)
      (stopped twoItems r.nextId) result := by
  obtain ⟨r, result, hcall, hok, htest⟩ := exists_call_of_replay cancelledLoop twoItems 20 none
    [.completeUserTask 11 "" none] (.completeUserTask 13 "" none)
    (fun r result => (∃ t ∈ r.state.tokens, t.id = 8 ∧ t.status = .cancelled) ∧
      ∀ t ∈ result.newState.tokens, t.id = 8 → t.status = .completed) (by decide +kernel)
  obtain ⟨⟨t, ht, hid, hcancelled⟩, hcompleted⟩ := of_decide_eq_true htest
  refine ⟨r, result, hcall, hok, fun hkeeps => ?_⟩
  obtain ⟨t', ht', hid', hstatus⟩ := hkeeps.1 t ht (Or.inr hcancelled)
  rw [hcompleted t' ht' (hid'.trans hid), hcancelled] at hstatus
  cases hstatus

end NexusWorkflow
