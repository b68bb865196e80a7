import NexusWorkflow.Game.Settled

/-!
# Reported cancellations

Whatever cancels a live token reports it by an event.  As long as no token is completed that has
been reported, the ids reported are those of the tokens that were cancelled meanwhile, and each is
reported once.
-/

namespace NexusWorkflow

variable {d : ProcessDefinition} {P Q P' : Pool} {origins : List Origin} {old : Nat → Prop}

/-- The ids reported are those of the cancelled tokens, those apart that were cancelled of old. -/
structure Pool.Reports (old : Nat → Prop) (P : Pool) : Prop where
  once : P.cancelled.Nodup
  named : ∀ id ∈ P.cancelled, ¬ old id ∧ ∃ x ∈ P.tokens, x.id = id ∧ x.status = .cancelled
  noted : ∀ x ∈ P.tokens, x.status = .cancelled → old x.id ∨ x.id ∈ P.cancelled
  past : ∀ x ∈ P.tokens, old x.id → x.Finished

namespace Pool.Reports

theorem free (h : P.Reports old) (hnd : P.ids.Nodup) {x : Token} (hx : x ∈ P.tokens)
    (hlive : x.live = true) : x.id ∉ P.cancelled ∧ ¬ old x.id := by
  constructor
  · intro hid
    obtain ⟨-, y, hy, hyx, hs⟩ := h.named x.id hid
    obtain rfl := Pool.eq_of_id hnd hy hx hyx
    simp [Token.live, hs] at hlive
  · intro hold
    rw [Token.not_live_of_finished (h.past x hx hold)] at hlive
    cases hlive

theorem waiting (h : P.Reports old) (hnd : P.ids.Nodup) {x : Token} (hx : x ∈ P.tokens)
    (hw : x.status = .waiting) : x.id ∉ P.cancelled ∧ ¬ old x.id :=
  h.free hnd hx (Token.live_of_waiting hw)

theorem of_eq (h : P.Reports old) (ht : Q.tokens = P.tokens) (hc : Q.cancelled = P.cancelled) :
    Q.Reports old := by
  constructor
  · rw [hc]
    exact h.once
  · rw [hc, ht]
    exact h.named
  · rw [hc, ht]
    exact h.noted
  · rw [ht]
    exact h.past

/-- A token that has not been reported gets a new version. -/
theorem put (h : P.Reports old) {t : Token} (hid : t.id ∉ P.cancelled)
    (hs : t.status = .cancelled → old t.id) (hpast : old t.id → t.Finished) :
    (P.put t).Reports old where
  once := h.once
  named id hmem := by
    obtain ⟨hnot, x, hx, rfl, hc⟩ := h.named id hmem
    exact ⟨hnot, x, Pool.mem_put_of_ne hx fun hxt => hid (hxt ▸ hmem), rfl, hc⟩
  noted x hx hc := by
    rcases Pool.mem_put hx with rfl | ⟨hx, -⟩
    · exact .inl (hs hc)
    · exact h.noted x hx hc
  past x hx hold := by
    rcases Pool.mem_put hx with rfl | ⟨hx, -⟩
    · exact hpast hold
    · exact h.past x hx hold

theorem finish (h : P.Reports old) {t : Token} (hid : t.id ∉ P.cancelled) :
    (P.finish t).Reports old :=
  h.put (t := { t with status := .completed }) hid nofun fun _ => .inl rfl

theorem cancelAll (h : P.Reports old) (hnd : P.ids.Nodup) {p : Token → Bool}
    (hp : ∀ x, p x = true → x.live = true) : (P.cancelAll p).Reports old where
  once := by
    refine List.nodup_append.2 ⟨h.once, hnd.sublist (List.filter_sublist.map _), ?_⟩
    rintro id hid _ hmem rfl
    obtain ⟨x, hx, rfl⟩ := List.mem_map.1 hmem
    obtain ⟨hx, hpx⟩ := List.mem_filter.1 hx
    exact (h.free hnd hx (hp x hpx)).1 hid
  named id hid := by
    rcases List.mem_append.1 hid with hid | hid
    · obtain ⟨hnot, x, hx, rfl, hc⟩ := h.named id hid
      have hfin : x.Finished := .inr hc
      exact ⟨hnot, x, Pool.mem_cancelAll_of_finished hx hfin (hp x), rfl, hc⟩
    · obtain ⟨x, hx, rfl⟩ := List.mem_map.1 hid
      obtain ⟨hx, hpx⟩ := List.mem_filter.1 hx
      refine ⟨(h.free hnd hx (hp x hpx)).2, { x with status := .cancelled }, ?_, rfl, rfl⟩
      exact List.mem_map.2 ⟨x, hx, if_pos hpx⟩
  noted x hx hc := by
    rcases Pool.mem_cancelAll hx with ⟨hx, -⟩ | ⟨y, hy, hpy, rfl⟩
    · exact (h.noted x hx hc).imp_right (List.mem_append_left _)
    · refine .inr (List.mem_append_right _ (List.mem_map.2 ⟨y, ?_, rfl⟩))
      exact List.mem_filter.2 ⟨hy, hpy⟩
  past x hx hold := by
    rcases Pool.mem_cancelAll hx with ⟨hx, -⟩ | ⟨y, hy, -, rfl⟩
    · exact h.past x hx hold
    · exact .inr rfl

theorem cancelOne (h : P.Reports old) {t : Token} (ht : t.id ∈ P.ids) (hid : t.id ∉ P.cancelled)
    (hold : ¬ old t.id) : (P.cancelOne t).Reports old where
  once := by
    refine List.nodup_append.2 ⟨h.once, List.nodup_singleton _, ?_⟩
    rintro id hmem _ hsingle rfl
    exact hid (List.mem_singleton.1 hsingle ▸ hmem)
  named id hmem := by
    rcases List.mem_append.1 hmem with hmem | hmem
    · obtain ⟨hnot, x, hx, rfl, hc⟩ := h.named id hmem
      refine ⟨hnot, x, Pool.mem_cancelOne_of_ne hx fun hxt => hid (hxt ▸ hmem), rfl, hc⟩
    · obtain ⟨x, hx, hxt⟩ := List.mem_map.1 ht
      rw [List.mem_singleton.1 hmem]
      exact ⟨hold, { t with status := .cancelled }, List.mem_map.2 ⟨x, hx, if_pos hxt⟩, rfl, rfl⟩
  noted x hx hc := by
    rcases Pool.mem_put hx with rfl | ⟨hx, -⟩
    · exact .inr (List.mem_append_right _ (List.mem_singleton_self _))
    · exact (h.noted x hx hc).imp_right (List.mem_append_left _)
  past x hx hold' := by
    rcases Pool.mem_put hx with rfl | ⟨hx, -⟩
    · exact .inr rfl
    · exact h.past x hx hold'

theorem spawned {α : Type} {R : α → Token → Prop} {items : List α} (h : P.Reports old)
    (hlt : ∀ id, old id → id < P.nextId) (hmade : Spawned R items P P') : P'.Reports old := by
  obtain ⟨news, n, -, hfresh, rfl⟩ := hmade
  refine ⟨h.once, fun id hid => ?_, fun x hx hc => ?_, fun x hx hold => ?_⟩
  · obtain ⟨hnot, x, hx, hxid, hc⟩ := h.named id hid
    exact ⟨hnot, x, List.mem_append_left _ hx, hxid, hc⟩
  · rcases List.mem_append.1 hx with hx | hx
    · exact h.noted x hx hc
    · rw [hfresh.active x hx] at hc
      cases hc
  · rcases List.mem_append.1 hx with hx | hx
    · exact h.past x hx hold
    · have hge := hfresh.ge x hx
      have hnew := hlt x.id hold
      omega

theorem clearBoundaries (h : P.Reports old) (hnd : P.ids.Nodup) (elementId : String) :
    (P.clearBoundaries elementId).Reports old :=
  h.cancelAll hnd fun _ hx => Token.live_of_waiting (of_decide_eq_true hx).1

theorem clearHost (h : P.Reports old) (hnd : P.ids.Nodup) (attachedToRef : String)
    (firing : Option Nat) : (P.clearHost attachedToRef firing).Reports old :=
  h.cancelAll hnd fun _ hx => Token.live_of_waiting (of_decide_eq_true hx).2.1

theorem clearSiblings (h : P.Reports old) (hnd : P.ids.Nodup) (w : Token) :
    (P.clearSiblings w).Reports old := by
  unfold Pool.clearSiblings
  cases w.parentTokenId with
  | none => exact h
  | some parent => exact h.cancelAll hnd fun _ hx =>
    Token.live_of_waiting (of_decide_eq_true hx).2.2

theorem clearScope (h : P.Reports old) (hnd : P.ids.Nodup) (s : String) (t : Token) :
    (P.clearScope s t).Reports old :=
  (h.cancelAll hnd fun _ hx => (of_decide_eq_true hx).2.2).of_eq rfl rfl

theorem closeLoop (h : P.Reports old) (hnd : P.ids.Nodup) {p : Token} (hid : p.id ∉ P.cancelled)
    (elementId : String) : (P.closeLoop p elementId).Reports old := by
  apply (h.finish hid).clearBoundaries
  rw [Pool.finish, Pool.ids_put]
  exact hnd

end Pool.Reports

/-! ## The rules -/

theorem SubEnd.reports {s : String} (hnd : P.ids.Nodup) (h : P.Reports old)
    (hend : SubEnd d s P Q origins) : Q.Reports old := by
  cases hend with
  | busy _ | orphan _ _ => exact h
  | complete _ houter _ =>
    obtain ⟨hm, -, hw⟩ := Pool.waitingAt_eq_some houter
    exact h.finish (h.waiting hnd hm hw).1

theorem FireCancel.reports {s : String} {outer : Token} (hnd : P.ids.Nodup) (h : P.Reports old)
    (houter : P.waitingAt s = some outer) (hfire : FireCancel d s outer P Q origins) :
    Q.Reports old := by
  obtain ⟨ho, -, how⟩ := Pool.waitingAt_eq_some houter
  obtain ⟨hfree, hold⟩ := h.waiting hnd ho how
  cases hfire with
  | none _ | unarmed _ _ => exact h
  | fire _ hw =>
    obtain ⟨hm, -, hww⟩ := Pool.waitingAt_eq_some hw
    apply (h.finish (h.waiting hnd hm hww).1).cancelOne _ hfree hold
    rw [Pool.finish, Pool.ids_put]
    exact List.mem_map_of_mem ho

theorem TxCancel.reports {s : String} {t : Token} (hnd : P.ids.Nodup) (h : P.Reports old)
    (hcancel : TxCancel d s t P Q origins) : Q.Reports old := by
  have hclear := h.clearScope hnd s t
  cases hcancel with
  | compensate _ | orphan _ _ => exact hclear
  | fire _ houter hfire => exact hfire.reports ((Frame.clearScope P s t).nodup hnd) hclear houter

theorem Ends.reports {t : Token} {e : EventElement} (hnd : P.ids.Nodup) (h : P.Reports old)
    (hends : Ends d t P e Q origins) : Q.Reports old := by
  cases hends with
  | cancelTop _ _ | more _ _ _ _ => exact h
  | cancel _ _ hcancel => exact hcancel.reports hnd h
  | terminate _ =>
    exact (h.cancelAll hnd fun _ hx => (of_decide_eq_true hx).2).of_eq rfl rfl
  | inner _ _ _ hend => exact hend.reports hnd h
  | last _ _ _ _ _ => exact h.of_eq rfl rfl

/-- A child completes that has not been reported; nor has its parent, if the loop may close. -/
theorem ChildDone.reports {c : Token} {e : BpmnFlowElement} {lc : MultiInstanceLoopCharacteristics}
    {hand : List Token} (hP : P.Coherent hand) (h : P.Reports old) (hc : P.Holds c)
    (hid : c.id ∉ P.cancelled)
    (hparent : ∀ p, c.parentTokenId.bind P.get? = some p → P.MayClose c p lc → p.id ∉ P.cancelled)
    (hdone : ChildDone c e lc P Q origins) : Q.Reports old := by
  have hfinish := h.finish hid
  have hframe := Frame.finish hP.nodup hc
  have hnd := hframe.nodup hP.nodup
  cases hdone with
  | orphan _ => exact h
  | noLoop _ _ _ | wait _ _ _ => exact hfinish
  | @next p hp hseq _ loopState =>
    have hfree := hparent p hp (.inl hseq)
    obtain ⟨hm, -⟩ := hP.of_get?_parent hc hp
    apply hfinish.put (t := { p with loopState := some loopState }) hfree
    · exact fun hs => (h.noted p hm hs).resolve_right hfree
    · exact h.past p hm
  | lastItem hp hseq _ => exact hfinish.closeLoop hnd (hparent _ hp (.inl hseq)) _
  | @condition p hp _ hcond =>
    have hclear : ((P.finish c).clearChildren p.id).Reports old :=
      hfinish.cancelAll hnd fun _ hx => Token.live_of_waiting (of_decide_eq_true hx).2
    apply hclear.closeLoop ((Frame.clearChildren _ _).nodup hnd)
    -- no token is its own parent
    intro hmem
    rcases List.mem_append.1 hmem with hmem | hmem
    · exact hparent p hp (.inr (.inl hcond)) hmem
    · obtain ⟨y, hy, hyp⟩ := List.mem_map.1 hmem
      obtain ⟨hy, hchild⟩ := List.mem_filter.1 hy
      obtain ⟨x, hx, hxy⟩ := hframe.exists_mem' hy
      have hlt := (hP.parents x hx p.id
        ((Token.parent_of_bare hxy).trans (of_decide_eq_true hchild).1)).2.1
      rw [Token.id_of_bare hxy, hyp] at hlt
      omega
  | allDone hp _ hall => exact hfinish.closeLoop hnd (hparent _ hp (.inr (.inr hall))) _

theorem HandlerDone.reports {w throwToken : Token} (hnd : P.ids.Nodup) (h : P.Reports old)
    (hw : P.Holds w) (hid : w.id ∉ P.cancelled) (hth : throwToken.id ∉ P.cancelled)
    (hdone : HandlerDone d w throwToken P Q origins) : Q.Reports old := by
  have hfinish := h.finish hid
  cases hdone with
  | wait _ | orphan _ _ _ _ _ => exact hfinish
  | fire _ _ _ _ houter hfire =>
    exact hfire.reports ((Frame.finish hnd hw).nodup hnd) hfinish houter
  | advance _ _ _ => exact hfinish.finish hth

/-- A waiting token completes whose parent has not been reported, and which does not guard
itself. -/
theorem Complete.reports {w : Token} (hP : P.Coherent []) (h : P.Reports old) (hw : w ∈ P.tokens)
    (hwaiting : w.status = .waiting)
    (hparent : ∀ p, w.parentTokenId.bind P.get? = some p → p.id ∉ P.cancelled)
    (hself : ¬ Pool.Guards w.elementId w) (hdone : Complete d P w Q origins) : Q.Reports old := by
  have hresume : P.autoResume.Reports old := h.of_eq rfl rfl
  have hcoh : P.autoResume.Coherent [] := hP.of_eq rfl rfl rfl
  obtain ⟨hfree, -⟩ := h.waiting hP.nodup hw hwaiting
  cases hdone with
  | child _ _ hdone =>
    exact hdone.reports hcoh hresume (Pool.holds_of_mem hw) hfree fun p hp _ => hparent p hp
  | handler _ hrole hdone =>
    have hth := hparent _ (Pool.holds_of_role hrole)
    exact hdone.reports hcoh.nodup hresume (Pool.holds_of_mem hw) hfree hth
  | plain _ _ _ =>
    refine ((hresume.clearBoundaries hcoh.nodup w.elementId).finish fun hmem => ?_).of_eq rfl rfl
    rcases List.mem_append.1 hmem with hmem | hmem
    · exact hfree hmem
    · obtain ⟨x, hx, hid⟩ := List.mem_map.1 hmem
      obtain ⟨hx, hguard⟩ := List.mem_filter.1 hx
      obtain rfl := Pool.eq_of_id hP.nodup hx hw hid
      exact hself (of_decide_eq_true hguard).2

theorem Resume.reports {w : Token} (hnd : P.ids.Nodup) (h : P.Reports old) (hw : w ∈ P.tokens)
    (hwaiting : w.status = .waiting) (hdone : Resume d P w Q origins) : Q.Reports old := by
  obtain ⟨-⟩ := hdone
  have hfinish := h.finish (h.waiting hnd hw hwaiting).1
  exact hfinish.clearSiblings ((Frame.finish hnd (Pool.holds_of_mem hw)).nodup hnd) w

/-- A turn of a token that has not been reported; nor has its parent, if the turn may complete
it. -/
theorem Turn.reports {t : Token} (hP : P.Coherent [t]) (h : P.Reports old)
    (hid : t.id ∉ P.cancelled) (hold : ¬ old t.id)
    (hparent : ∀ p ∈ P.tokens, t.parentTokenId = some p.id → P.TouchesTurn d t p →
      p.id ∉ P.cancelled) (hturn : Turn d P t Q origins) : Q.Reports old := by
  have ht := hP.holds List.mem_cons_self
  cases hturn with
  | pass _ _ _ => exact (h.finish hid).of_eq rfl rfl
  | @park _ _ condition loopState _ _ _ =>
    have hput : (P.park t condition loopState).Reports old :=
      h.put (t := { t with status := .waiting, waitingFor := some condition, loopState }) hid
        nofun fun hpast => absurd hpast hold
    exact hput.of_eq rfl rfl
  | branch _ _ _ => exact h.finish hid
  | ends _ hends => exact hends.reports ((Frame.finish hP.nodup ht).nodup hP.nodup) (h.finish hid)
  | @child e he lc hlc _ Q origins hdone =>
    refine hdone.reports hP h ht hid fun p hp hmay => ?_
    obtain ⟨hm, -⟩ := hP.of_get?_parent ht hp
    obtain ⟨i, hi, hget⟩ := Option.bind_eq_some_iff.1 hp
    have hchild : t.parentTokenId = some p.id := by rw [hi, (Pool.get?_eq_some hget).2]
    refine hparent p hm hchild (.inr ?_)
    simp only [he]
    exact ⟨lc, hlc, .inr ⟨p, hp, hmay, .inl rfl⟩⟩

/-- In a command only a boundary token that guards its own element completes when it has just been
cancelled. -/
theorem Deed.reports {command : EngineCommand} (hP : P.Coherent []) (h : P.Reports old)
    (hnone : P.cancelled = [])
    (hself : command.Completing (fun _ w => ¬ Pool.Guards w.elementId w) P)
    (hdeed : Deed d P command Q origins) : Q.Reports old := by
  have hfree : ∀ id : Nat, id ∉ P.cancelled := fun id => by
    rw [hnone]
    exact List.not_mem_nil
  have hnd := hP.nodup
  cases hdeed with
  | startProcess _ _ _ | failUncaught _ _ _ _ | suspendInstance _ | resumeInstance _ =>
    exact h.of_eq rfl rfl
  | completeServiceTask _ hw hwaiting hdone | completeUserTask _ _ hw hwaiting hdone =>
    exact hdone.reports hP h hw hwaiting (fun p _ => hfree p.id) (hself _ hw rfl)
  | @failCaught _ _ w hw hwaiting _ _ =>
    have hcancel := h.cancelOne (List.mem_map_of_mem hw) (hfree w.id) (h.waiting hnd hw hwaiting).2
    exact hcancel.clearHost ((Frame.cancelOne hnd (Pool.holds_of_mem hw)).nodup hnd) _ _
  | @fireInterrupting w hw _ _ _ _ _ =>
    have hfinish := h.finish (hfree w.id)
    exact hfinish.clearHost ((Frame.finish hnd (Pool.holds_of_mem hw)).nodup hnd) _ _
  | @fireBoundary w _ _ _ _ _ _ => exact h.finish (hfree w.id)
  | @fireCatch w hw hwaiting htype _ _ hdone =>
    have hframe := Frame.clearSiblings P w
    refine hdone.reports (hP.clearSiblings w) (h.clearSiblings hnd w) (mem_clearSiblings_self hw)
      hwaiting (fun p hp hmem => ?_) (hself w hw rfl htype)
    -- the parent is not one of the siblings, as no token is its own parent
    obtain ⟨i, hi, hget⟩ := Option.bind_eq_some_iff.1 hp
    obtain ⟨-, rfl⟩ := Pool.get?_eq_some hget
    unfold Pool.clearSiblings at hmem
    rw [hi] at hmem
    rcases List.mem_append.1 hmem with hmem | hmem
    · exact hfree _ hmem
    · obtain ⟨x, hx, hid⟩ := List.mem_map.1 hmem
      obtain ⟨hx, hsibling⟩ := List.mem_filter.1 hx
      have hpar := (of_decide_eq_true hsibling).2.1
      have hlt := (hP.parents x hx p.id hpar).2.1
      omega
  | cancelInstance => exact (h.cancelAll hnd fun _ hx => hx).of_eq rfl rfl

theorem Resumes.reports {targets : List Token} (hP : P.Coherent []) (h : P.Reports old)
    (hlt : ∀ id, old id → id < P.nextId) (hr : Resumes d targets P P') : P'.Reports old := by
  induction hr with
  | nil _ => exact h
  | skip _ _ _ ih => exact ih hP h hlt
  | resume hw hwaiting hresume hmade _ ih =>
    have hframe := hresume.frame hP.nodup (Pool.holds_of_mem hw)
    have hltQ := fun id hid => hframe.nextId.symm ▸ hlt id hid
    refine ih ((hresume.ready hP hw hwaiting).spawned hmade)
      ((hresume.reports hP.nodup h hw hwaiting).spawned hltQ hmade) fun id hid => ?_
    obtain ⟨news, n, -, hfresh, rfl⟩ := hmade
    exact (hltQ id hid).trans_le hfresh.le

theorem Commanded.reports {command : EngineCommand} (hP : P.Coherent []) (h : P.Reports old)
    (hnone : P.cancelled = []) (hlt : ∀ id, old id → id < P.nextId)
    (hself : command.Completing (fun _ w => ¬ Pool.Guards w.elementId w) P)
    (hc : Commanded d P command P') : P'.Reports old := by
  cases hc with
  | deed hdeed hmade =>
    have hframe := hdeed.frame hP.nodup
    exact (hdeed.reports hP h hnone hself).spawned (fun id hid => hframe.nextId.symm ▸ hlt id hid)
      hmade
  | deliverMessage _ _ hr | broadcastSignal _ _ hr => exact hr.reports hP h hlt

end NexusWorkflow
