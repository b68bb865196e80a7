import NexusWorkflow.Game.Kinship
import NexusWorkflow.Game.Touch

/-!
# Settled tokens

A finished token that has no children, or cannot have any, is left alone by every rule from then on.
-/

namespace NexusWorkflow

variable {d : ProcessDefinition} {P Q P' : Pool} {origins : List Origin} {x : Token}

theorem Pool.ne_of_waiting (hP : P.ids.Nodup) (hx : x ∈ P.tokens) (hfin : x.Finished) {y : Token}
    (hy : y ∈ P.tokens) (hw : y.status = .waiting) : x.id ≠ y.id := fun hid => by
  rw [Pool.eq_of_id hP hx hy hid, Token.Finished, hw] at hfin
  rcases hfin with h | h <;> cases h

/-- A cancellation of live tokens leaves the finished ones alone. -/
theorem Pool.mem_cancelAll_of_finished {p : Token → Bool} (hx : x ∈ P.tokens) (hfin : x.Finished)
    (hp : p x = true → x.live = true) : x ∈ (P.cancelAll p).tokens := by
  refine Pool.mem_cancelAll_of_not hx (Bool.eq_false_iff.2 fun h => ?_)
  have hlive := hp h
  rw [Token.not_live_of_finished hfin] at hlive
  cases hlive

theorem Token.live_of_waiting {t : Token} (h : t.status = .waiting) : t.live = true := by
  simp [live, h]

theorem Pool.mem_clearBoundaries_of_finished {elementId : String} (hx : x ∈ P.tokens)
    (hfin : x.Finished) : x ∈ (P.clearBoundaries elementId).tokens :=
  mem_cancelAll_of_finished hx hfin fun h => by
    simp only [decide_eq_true_eq] at h
    exact Token.live_of_waiting h.1

theorem Pool.mem_clearHost_of_finished {attachedToRef : String} {firing : Option Nat}
    (hx : x ∈ P.tokens) (hfin : x.Finished) : x ∈ (P.clearHost attachedToRef firing).tokens :=
  mem_cancelAll_of_finished hx hfin fun h => by
    simp only [decide_eq_true_eq] at h
    exact Token.live_of_waiting h.2.1

theorem Pool.mem_clearChildren_of_finished {parent : Nat} (hx : x ∈ P.tokens) (hfin : x.Finished) :
    x ∈ (P.clearChildren parent).tokens :=
  mem_cancelAll_of_finished hx hfin fun h => by
    simp only [decide_eq_true_eq] at h
    exact Token.live_of_waiting h.2

theorem Pool.mem_clearSiblings_of_finished {w : Token} (hx : x ∈ P.tokens) (hfin : x.Finished) :
    x ∈ (P.clearSiblings w).tokens := by
  unfold Pool.clearSiblings
  cases w.parentTokenId with
  | none => exact hx
  | some parent =>
    refine mem_cancelAll_of_finished hx hfin fun h => ?_
    simp only [decide_eq_true_eq] at h
    exact Token.live_of_waiting h.2.2

theorem Pool.mem_clearSiblings_waiting {w x : Token} (hx : x ∈ P.tokens)
    (hparent : w.parentTokenId ≠ none) (hsame : x.parentTokenId = w.parentTokenId)
    (hne : x.id ≠ w.id) (hwaiting : x.status = .waiting) :
    { x with status := .cancelled } ∈ (P.clearSiblings w).tokens := by
  obtain ⟨p, hp⟩ := Option.ne_none_iff_exists'.1 hparent
  unfold Pool.clearSiblings
  simp only [hp]
  exact List.mem_map.2 ⟨x, hx, by simp [Pool.kill, hne, hsame, hp, hwaiting]⟩

theorem Pool.mem_clearScope_of_finished {s : String} {t : Token} (hx : x ∈ P.tokens)
    (hfin : x.Finished) : x ∈ (P.clearScope s t).tokens :=
  mem_cancelAll_of_finished hx hfin fun h => by
    simp only [decide_eq_true_eq] at h
    exact h.2.2

theorem Pool.mem_finish_of_ne {t : Token} (hx : x ∈ P.tokens) (hid : x.id ≠ t.id) :
    x ∈ (P.finish t).tokens :=
  mem_put_of_ne (t := { t with status := .completed }) hx hid

theorem Pool.mem_finish {t : Token} (ht : t ∈ P.tokens) :
    { t with status := .completed } ∈ (P.finish t).tokens :=
  List.mem_map.2 ⟨t, ht, by simp [Pool.update]⟩

/-! ## The rules -/

theorem SubEnd.keeps {s : String} (hP : P.ids.Nodup) (hx : x ∈ P.tokens) (hfin : x.Finished)
    (h : SubEnd d s P Q origins) : x ∈ Q.tokens := by
  cases h with
  | busy _ | orphan _ _ => exact hx
  | complete _ houter _ =>
    obtain ⟨hm, -, hw⟩ := Pool.waitingAt_eq_some houter
    exact Pool.mem_finish_of_ne hx (Pool.ne_of_waiting hP hx hfin hm hw)

theorem FireCancel.keeps {s : String} {outer : Token} (hP : P.ids.Nodup) (hx : x ∈ P.tokens)
    (hfin : x.Finished) (houter : P.waitingAt s = some outer)
    (h : FireCancel d s outer P Q origins) : x ∈ Q.tokens := by
  obtain ⟨ho, -, how⟩ := Pool.waitingAt_eq_some houter
  cases h with
  | none _ | unarmed _ _ => exact hx
  | fire _ hw =>
    obtain ⟨hm, -, hww⟩ := Pool.waitingAt_eq_some hw
    have hfinish := Pool.mem_finish_of_ne hx (Pool.ne_of_waiting hP hx hfin hm hww)
    exact Pool.mem_cancelOne_of_ne hfinish (Pool.ne_of_waiting hP hx hfin ho how)

theorem TxCancel.keeps {s : String} {t : Token} (hP : P.ids.Nodup) (hx : x ∈ P.tokens)
    (hfin : x.Finished) (h : TxCancel d s t P Q origins) : x ∈ Q.tokens := by
  have hclear : x ∈ (P.clearScope s t).tokens := Pool.mem_clearScope_of_finished hx hfin
  cases h with
  | compensate _ | orphan _ _ => exact hclear
  | fire _ houter hfire =>
    exact hfire.keeps ((Frame.clearScope P s t).nodup hP) hclear hfin houter

theorem Ends.keeps {t : Token} {e : EventElement} (hP : P.ids.Nodup) (hx : x ∈ P.tokens)
    (hfin : x.Finished) (h : Ends d t P e Q origins) : x ∈ Q.tokens := by
  cases h with
  | cancelTop _ _ | last _ _ _ _ _ | more _ _ _ _ => exact hx
  | cancel _ _ h => exact h.keeps hP hx hfin
  | inner _ _ _ h => exact h.keeps hP hx hfin
  | terminate _ =>
    refine Pool.mem_cancelAll_of_finished (p := fun x => x.id ≠ t.id ∧ x.live) hx hfin fun h => ?_
    simp only [decide_eq_true_eq] at h
    exact h.2

theorem ChildDone.keeps {c : Token} {e : BpmnFlowElement} {lc : MultiInstanceLoopCharacteristics}
    (hx : x ∈ P.tokens) (hfin : x.Finished) (hc : x.id ≠ c.id)
    (hparent : ∀ p, c.parentTokenId.bind P.get? = some p → x.id ≠ p.id)
    (h : ChildDone c e lc P Q origins) : x ∈ Q.tokens := by
  have hfinish := Pool.mem_finish_of_ne hx hc
  have hclose : ∀ {R : Pool} (p : Token), x ∈ R.tokens → x.id ≠ p.id →
      x ∈ (R.closeLoop p e.id).tokens := fun p hx hne =>
    Pool.mem_clearBoundaries_of_finished (Pool.mem_finish_of_ne hx hne) hfin
  cases h with
  | orphan _ => exact hx
  | noLoop _ _ _ | wait _ _ _ => exact hfinish
  | @next p hp _ _ loopState =>
    exact Pool.mem_put_of_ne (t := { p with loopState := some loopState }) hfinish (hparent p hp)
  | lastItem hp _ _ => exact hclose _ hfinish (hparent _ hp)
  | condition hp _ _ =>
    exact hclose _ (Pool.mem_clearChildren_of_finished hfinish hfin) (hparent _ hp)
  | allDone hp _ _ => exact hclose _ hfinish (hparent _ hp)

theorem HandlerDone.keeps {h throwToken : Token} (hnd : (P.finish h).ids.Nodup) (hx : x ∈ P.tokens)
    (hfin : x.Finished) (hh : x.id ≠ h.id) (hth : x.id ≠ throwToken.id)
    (hdone : HandlerDone d h throwToken P Q origins) : x ∈ Q.tokens := by
  have hfinish := Pool.mem_finish_of_ne hx hh
  cases hdone with
  | wait _ | orphan _ _ _ _ _ => exact hfinish
  | fire _ _ _ _ houter hfire => exact hfire.keeps hnd hfinish hfin houter
  | advance _ _ _ => exact Pool.mem_finish_of_ne hfinish hth

/-- The parent of another token, looked up, is not a token that cannot have children. -/
theorem Pool.Kindred.ne_parent (hk : P.Kindred d) (hnd : P.ids.Nodup) (hx : x ∈ P.tokens)
    (hmay : ¬ x.MayParent d) {c p : Token} (hc : P.Holds c)
    (hp : c.parentTokenId.bind P.get? = some p) : x.id ≠ p.id := fun hid => by
  obtain ⟨i, -, hget⟩ := Option.bind_eq_some_iff.1 hp
  exact hmay (Pool.eq_of_id hnd hx (Pool.get?_eq_some hget).1 hid ▸ hk.of_get? hc hp)

/-- A turn leaves a finished token alone that is neither in hand nor the parent. -/
theorem Turn.sparesFinished {t : Token} (hnd : P.ids.Nodup) (ht : P.Holds t) (hx : x ∈ P.tokens)
    (hfin : x.Finished) (hid : x.id ≠ t.id)
    (hparent : ∀ p, t.parentTokenId.bind P.get? = some p → x.id ≠ p.id)
    (h : Turn d P t Q origins) : x ∈ Q.tokens := by
  cases h with
  | pass _ _ _ => exact Pool.mem_finish_of_ne hx hid
  | @park e he condition loopState _ _ _ =>
    exact Pool.mem_put_of_ne
      (t := { t with status := .waiting, waitingFor := some condition, loopState }) hx hid
  | branch _ _ _ => exact Pool.mem_finish_of_ne hx hid
  | ends _ h =>
    exact h.keeps ((Frame.finish hnd ht).nodup hnd) (Pool.mem_finish_of_ne hx hid) hfin
  | child _ _ _ h => exact h.keeps hx hfin hid hparent

/-- A turn leaves a finished token alone that cannot have children. -/
theorem Turn.keeps {t : Token} (hnd : P.ids.Nodup) (hk : P.Kindred d) (ht : P.Holds t)
    (hx : x ∈ P.tokens) (hfin : x.Finished) (hmay : ¬ x.MayParent d) (hid : x.id ≠ t.id)
    (h : Turn d P t Q origins) : x ∈ Q.tokens :=
  h.sparesFinished hnd ht hx hfin hid fun _ hp => hk.ne_parent hnd hx hmay ht hp

theorem Complete.sparesFinished {w : Token} (hnd : P.ids.Nodup) (hw : w ∈ P.tokens)
    (hwaiting : w.status = .waiting) (hx : x ∈ P.tokens) (hfin : x.Finished)
    (hparent : ∀ p, w.parentTokenId.bind P.get? = some p → x.id ≠ p.id)
    (h : Complete d P w Q origins) : x ∈ Q.tokens := by
  have hid := Pool.ne_of_waiting hnd hx hfin hw hwaiting
  have hresume : x ∈ P.autoResume.tokens := hx
  cases h with
  | child _ _ h => exact h.keeps hresume hfin hid hparent
  | handler _ hrole h =>
    have hfinish := Frame.finish (P := P.autoResume) hnd (Pool.holds_of_mem hw)
    exact h.keeps (hfinish.nodup hnd) hresume hfin hid (hparent _ (Pool.holds_of_role hrole))
  | plain _ _ _ =>
    exact Pool.mem_finish_of_ne (Pool.mem_clearBoundaries_of_finished hresume hfin) hid

theorem Complete.keeps {w : Token} (hnd : P.ids.Nodup) (hk : P.Kindred d) (hw : w ∈ P.tokens)
    (hwaiting : w.status = .waiting) (hx : x ∈ P.tokens) (hfin : x.Finished)
    (hmay : ¬ x.MayParent d) (h : Complete d P w Q origins) : x ∈ Q.tokens :=
  h.sparesFinished hnd hw hwaiting hx hfin fun _ hp =>
    hk.ne_parent hnd hx hmay (Pool.holds_of_mem hw) hp

theorem Resume.keeps {w : Token} (hnd : P.ids.Nodup) (hw : w ∈ P.tokens)
    (hwaiting : w.status = .waiting) (hx : x ∈ P.tokens) (hfin : x.Finished)
    (h : Resume d P w Q origins) : x ∈ Q.tokens := by
  obtain ⟨-⟩ := h
  have hfinish := Pool.mem_finish_of_ne hx (Pool.ne_of_waiting hnd hx hfin hw hwaiting)
  exact Pool.mem_clearSiblings_of_finished hfinish hfin

theorem Deed.keeps {command : EngineCommand} (hnd : P.ids.Nodup) (hk : P.Kindred d)
    (hx : x ∈ P.tokens) (hfin : x.Finished) (hmay : ¬ x.MayParent d)
    (h : Deed d P command Q origins) : x ∈ Q.tokens := by
  cases h with
  | startProcess _ _ _ | failUncaught _ _ _ _ | suspendInstance _ | resumeInstance _ => exact hx
  | completeServiceTask _ hw hwaiting h => exact h.keeps hnd hk hw hwaiting hx hfin hmay
  | completeUserTask _ _ hw hwaiting h => exact h.keeps hnd hk hw hwaiting hx hfin hmay
  | failCaught _ hw hwaiting _ =>
    have hcancel := Pool.mem_cancelOne_of_ne hx (Pool.ne_of_waiting hnd hx hfin hw hwaiting)
    exact Pool.mem_clearHost_of_finished hcancel hfin
  | fireInterrupting hw hwaiting _ _ _ =>
    have hfinish := Pool.mem_finish_of_ne hx (Pool.ne_of_waiting hnd hx hfin hw hwaiting)
    exact Pool.mem_clearHost_of_finished hfinish hfin
  | fireBoundary hw hwaiting _ _ _ =>
    exact Pool.mem_finish_of_ne hx (Pool.ne_of_waiting hnd hx hfin hw hwaiting)
  | @fireCatch w hw hwaiting _ _ _ h =>
    have hframe := Frame.clearSiblings P w
    exact h.keeps (hframe.nodup hnd) (hk.frame hframe) (mem_clearSiblings_self hw) hwaiting
      (Pool.mem_clearSiblings_of_finished hx hfin) hfin hmay
  | cancelInstance => exact Pool.mem_cancelAll_of_finished hx hfin fun h => h

theorem Resumes.keeps {targets : List Token} (hP : P.Coherent []) (hx : x ∈ P.tokens)
    (hfin : x.Finished) (h : Resumes d targets P P') : x ∈ P'.tokens := by
  induction h with
  | nil _ => exact hx
  | skip _ _ _ ih => exact ih hP hx
  | resume hw hwaiting hresume hmade _ ih =>
    refine ih ((hresume.ready hP hw hwaiting).spawned hmade) (hmade.stays ?_)
    exact hresume.keeps hP.nodup hw hwaiting hx hfin

theorem Commanded.keeps {command : EngineCommand} (hP : P.Coherent []) (hk : P.Kindred d)
    (hx : x ∈ P.tokens) (hfin : x.Finished) (hmay : ¬ x.MayParent d)
    (h : Commanded d P command P') : x ∈ P'.tokens := by
  cases h with
  | deed h hmade => exact hmade.stays (h.keeps hP.nodup hk hx hfin hmay)
  | deliverMessage _ _ h | broadcastSignal _ _ h => exact h.keeps hP hx hfin

/-! ## Which targets are resumed -/

theorem resumed_sublist (done targets : List Token) : (resumed done targets).Sublist targets := by
  induction targets generalizing done with
  | nil => exact .slnil
  | cons v rest ih =>
    unfold resumed
    split_ifs
    · exact (ih done).cons v
    · exact (ih (v :: done)).cons_cons v

/-- A target that is resumed has been completed in the end. -/
theorem Resumes.completes {done targets : List Token} {w : Token} (hP : P.Coherent [])
    (hleft : TargetsLeft done targets P) (hw : w ∈ resumed done targets)
    (h : Resumes d targets P P') : { w with status := .completed } ∈ P'.tokens := by
  induction h generalizing done with
  | nil _ => cases hw
  | @skip v rest P P' x hx hwaiting _ ih =>
    have hstopped : ∃ u ∈ done, Pool.TouchesSiblings u v := by
      by_contra hnot
      obtain ⟨hmem, hid⟩ := Pool.get?_eq_some hx
      have hv := hleft.left v List.mem_cons_self hnot
      rw [Pool.eq_of_id hP.nodup hmem hv hid] at hwaiting
      exact hwaiting (hleft.waiting v List.mem_cons_self)
    have hrest : TargetsLeft done rest P :=
      ⟨(List.nodup_cons.1 hleft.nodup).2, fun v hv => hleft.waiting v (List.mem_cons_of_mem _ hv),
        fun v hv => hleft.stopped v (List.mem_cons_of_mem _ hv),
        fun v hv => hleft.left v (List.mem_cons_of_mem _ hv)⟩
    rw [resumed, if_pos hstopped] at hw
    exact ih hP hrest hw
  | @resume v rest P P' hv hwaiting Q mid origins hresume hmade hrest ih =>
    have hgoes : ¬ ∃ u ∈ done, Pool.TouchesSiblings u v := by
      intro hstopped
      obtain ⟨x, hx, hid, hnot⟩ := hleft.stopped v List.mem_cons_self hstopped
      rw [Pool.eq_of_id hP.nodup hx hv hid] at hnot
      exact hnot hwaiting
    have hmid := (hresume.ready hP hv hwaiting).spawned hmade
    rw [resumed, if_neg hgoes] at hw
    rcases List.mem_cons.1 hw with rfl | hw
    · have hdone : { w with status := .completed } ∈ mid.tokens := by
        obtain ⟨-⟩ := hresume
        exact hmade.stays (Pool.mem_clearSiblings_of_finished (Pool.mem_finish hv) (.inl rfl))
      exact hrest.keeps hmid hdone (.inl rfl)
    · exact ih hmid (hleft.resume hresume hmade) hw

/-- A token that waits before and is completed in the end has been resumed. -/
theorem Resumes.of_completed {done targets : List Token} (hP : P.Coherent [])
    (hleft : TargetsLeft done targets P) (hx : x ∈ P.tokens) (hwaiting : x.status = .waiting)
    {y : Token} (hy : y ∈ P'.tokens) (hid : y.id = x.id) (hcompleted : y.status = .completed)
    (h : Resumes d targets P P') : x ∈ resumed done targets := by
  induction h generalizing done with
  | nil _ =>
    rw [Pool.eq_of_id hP.nodup hy hx hid, hwaiting] at hcompleted
    cases hcompleted
  | @skip v rest P P' z hz hnot hrest ih =>
    obtain ⟨hmem, hzv⟩ := Pool.get?_eq_some hz
    have hstopped : ∃ u ∈ done, Pool.TouchesSiblings u v := by
      by_contra hgoes
      rw [Pool.eq_of_id hP.nodup hmem (hleft.left v List.mem_cons_self hgoes) hzv] at hnot
      exact hnot (hleft.waiting v List.mem_cons_self)
    rw [resumed, if_pos hstopped]
    exact ih hP ⟨(List.nodup_cons.1 hleft.nodup).2,
      fun v hv => hleft.waiting v (List.mem_cons_of_mem _ hv),
      fun v hv => hleft.stopped v (List.mem_cons_of_mem _ hv),
      fun v hv => hleft.left v (List.mem_cons_of_mem _ hv)⟩ hx hy
  | @resume v rest P P' hv hvw Q mid origins hresume hmade hrest ih =>
    have hgoes : ¬ ∃ u ∈ done, Pool.TouchesSiblings u v := by
      intro hstopped
      obtain ⟨z, hz, hzv, hnot⟩ := hleft.stopped v List.mem_cons_self hstopped
      rw [Pool.eq_of_id hP.nodup hz hv hzv] at hnot
      exact hnot hvw
    have hmid := (hresume.ready hP hv hvw).spawned hmade
    rw [resumed, if_neg hgoes]
    by_cases hself : x.id = v.id
    · exact Pool.eq_of_id hP.nodup hx hv hself ▸ List.mem_cons_self
    · have hfinish := Pool.mem_finish_of_ne hx hself
      by_cases hsiblings : Pool.TouchesSiblings v x
      · -- it is cancelled, and stays so
        have hcancelled : { x with status := .cancelled } ∈ mid.tokens := by
          obtain ⟨-⟩ := hresume
          exact hmade.stays (Pool.mem_clearSiblings_waiting hfinish hsiblings.2.1 hsiblings.2.2
            hself hwaiting)
        have hafter := hrest.keeps hmid hcancelled (.inr rfl)
        have hP' := hrest.coherent hmid
        rw [Pool.eq_of_id hP'.nodup hy hafter hid] at hcompleted
        cases hcompleted
      · have hstays : x ∈ mid.tokens := by
          obtain ⟨-⟩ := hresume
          exact hmade.stays (Pool.mem_clearSiblings hfinish hsiblings)
        exact List.mem_cons_of_mem _ (ih hmid (hleft.resume hresume hmade) hstays hy)

/-- No two of the targets that are resumed are siblings. -/
theorem resumed_apart (done targets : List Token) :
    (∀ v ∈ resumed done targets, ∀ u ∈ done, ¬ Pool.TouchesSiblings u v) ∧
      (resumed done targets).Pairwise fun u v => ¬ Pool.TouchesSiblings u v := by
  induction targets generalizing done with
  | nil => simp [resumed]
  | cons w rest ih =>
    unfold resumed
    split_ifs with hstop
    · exact ih done
    · obtain ⟨hdone, hapart⟩ := ih (w :: done)
      constructor
      · intro v hv u hu htouch
        rcases List.mem_cons.1 hv with rfl | hv
        · exact hstop ⟨u, hu, htouch⟩
        · exact hdone v hv u (List.mem_cons_of_mem w hu) htouch
      · exact List.pairwise_cons.2 ⟨fun v hv => hdone v hv w List.mem_cons_self, hapart⟩

/-- All targets are resumed if no two of them are siblings. -/
theorem resumed_eq {done targets : List Token}
    (h : ∀ u ∈ done ++ targets, ∀ v ∈ targets, ¬ Pool.TouchesSiblings u v) :
    resumed done targets = targets := by
  induction targets generalizing done with
  | nil => rfl
  | cons w rest ih =>
    have hgoes : ¬ ∃ u ∈ done, Pool.TouchesSiblings u w := fun ⟨u, hu, htouch⟩ =>
      h u (List.mem_append_left _ hu) w List.mem_cons_self htouch
    rw [resumed, if_neg hgoes, ih]
    intro u hu v hv
    refine h u ?_ v (List.mem_cons_of_mem w hv)
    simp only [List.cons_append, List.mem_cons, List.mem_append] at hu ⊢
    tauto

/-! ## Settled for good -/

/-- The token is finished, is not in the queue, and cannot have children. -/
structure Pool.Settled (d : ProcessDefinition) (P : Pool) (x : Token) : Prop where
  mem : x ∈ P.tokens
  finished : x.Finished
  notPending : x.id ∉ P.pending.map (·.id)
  childless : ¬ x.MayParent d

/-- A token that is not in the queue does not come into it with the new ones. -/
theorem Spawned.notPending {α : Type} {R : α → Token → Prop} {items : List α}
    (hmade : Spawned R items P P') (hlt : x.id < P.nextId) (hnot : x.id ∉ P.pending.map (·.id)) :
    x.id ∉ P'.pending.map (·.id) := by
  obtain ⟨news, n, -, hfresh, rfl⟩ := hmade
  intro hm
  obtain ⟨y, hy, hid⟩ := List.mem_map.1 hm
  rcases List.mem_append.1 hy with hy | hy
  · exact hnot (List.mem_map.2 ⟨y, hy, hid⟩)
  · have hge := hfresh.ge y hy
    omega

theorem Pool.Settled.spawned {α : Type} {R : α → Token → Prop} {items : List α}
    (hn : P.Numbered) (h : P.Settled d x) (hmade : Spawned R items P P') : P'.Settled d x :=
  ⟨hmade.stays h.mem, h.finished, hmade.notPending (hn x h.mem) h.notPending, h.childless⟩

theorem Pool.Settled.turn {t : Token} (hP : P.Coherent [t]) (hk : P.Kindred d)
    (h : P.Settled d x) (hid : x.id ≠ t.id) (hturn : Turn d P t Q origins) : Q.Settled d x := by
  have ht := hP.holds List.mem_cons_self
  refine ⟨hturn.keeps hP.nodup hk ht h.mem h.finished h.childless hid, h.finished, ?_, h.childless⟩
  rw [(hturn.frame hP.nodup ht).pending]
  exact h.notPending

end NexusWorkflow
