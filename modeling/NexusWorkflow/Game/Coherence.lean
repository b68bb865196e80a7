import NexusWorkflow.Game.Frame

/-!
# Coherence of the pool and the queue

The invariant that every cycle keeps, whatever the definition and the commands: ids are unique, the
queue holds exactly the active tokens and tokens that were cancelled while they waited in it, and a
token's parent is an older token that is not in the queue.  The rules are stated for the pool from
whose queue a token has been taken, so coherence is relative to the tokens in hand.
-/

namespace NexusWorkflow

namespace Pool

/-- The tokens in hand and in the queue. -/
def flight (P : Pool) (hand : List Token) : List Token := hand ++ P.pending

theorem flight_spawn (P : Pool) (hand news : List Token) (n : Nat) :
    (P.spawn news n).flight hand = P.flight hand ++ news := by
  simp [flight, spawn]

structure Coherent (P : Pool) (hand : List Token) : Prop where
  nodup : P.ids.Nodup
  numbered : P.Numbered
  flightNodup : ((P.flight hand).map (·.id)).Nodup
  /-- A token in flight is active, and so is its version in the pool unless it was cancelled. -/
  inFlight : ∀ q ∈ P.flight hand, q.status = .active ∧
    (q ∈ P.tokens ∨ { q with status := .cancelled } ∈ P.tokens)
  active : ∀ x ∈ P.tokens, x.status = .active → x ∈ P.flight hand
  notSuspended : ∀ x ∈ P.tokens, x.status ≠ .suspended
  parents : ∀ x ∈ P.tokens, ∀ p, x.parentTokenId = some p →
    p ∈ P.ids ∧ p < x.id ∧ p ∉ (P.flight hand).map (·.id)

namespace Coherent

variable {P Q : Pool} {hand : List Token}

theorem holds (h : P.Coherent hand) {q : Token} (hq : q ∈ P.flight hand) : P.Holds q := by
  rcases (h.inFlight q hq).2 with hm | hm
  · exact holds_of_mem hm
  · exact holds_iff.2 ⟨_, hm, rfl⟩

/-- The token in hand is its version in the pool, if that is active. -/
theorem mem_of_active {t : Token} (h : P.Coherent [t])
    (hactive : ∃ x ∈ P.tokens, x.id = t.id ∧ x.status = .active) : t ∈ P.tokens := by
  obtain ⟨x, hx, hid, hxa⟩ := hactive
  rcases (h.inFlight t List.mem_cons_self).2 with hm | hm
  · exact hm
  · rw [eq_of_id h.nodup hx hm hid] at hxa
    cases hxa

/-- A token that waits or has completed is not in flight. -/
theorem notMem_flight (h : P.Coherent hand) {x : Token} (hx : x ∈ P.tokens)
    (hactive : x.status ≠ .active) (hcancelled : x.status ≠ .cancelled) :
    x.id ∉ (P.flight hand).map (·.id) := by
  intro hm
  obtain ⟨q, hq, hid⟩ := List.mem_map.1 hm
  obtain ⟨hqa, hq | hq⟩ := h.inFlight q hq
  · exact hactive (eq_of_id h.nodup hx hq hid.symm ▸ hqa)
  · have : x = { q with status := .cancelled } := eq_of_id h.nodup hx hq hid.symm
    exact hcancelled (by rw [this])

theorem waiting_notMem_flight (h : P.Coherent hand) {x : Token} (hx : x ∈ P.tokens)
    (hwaiting : x.status = .waiting) : x.id ∉ (P.flight hand).map (·.id) :=
  h.notMem_flight hx (by simp [hwaiting]) (by simp [hwaiting])

theorem parent_of_holds (h : P.Coherent hand) {c : Token} (hc : P.Holds c) {p : Nat}
    (hp : c.parentTokenId = some p) :
    p ∈ P.ids ∧ p < c.id ∧ p ∉ (P.flight hand).map (·.id) := by
  obtain ⟨x, hx, hxc⟩ := holds_iff.1 hc
  have := h.parents x hx p ((Token.parent_of_bare hxc).trans hp)
  rwa [Token.id_of_bare hxc] at this

/-- The parent of a token, when it is looked up. -/
theorem of_get?_parent (h : P.Coherent hand) {c p : Token} (hc : P.Holds c)
    (hp : c.parentTokenId.bind P.get? = some p) :
    p ∈ P.tokens ∧ p.id < c.id ∧ p.id ∉ (P.flight hand).map (·.id) := by
  obtain ⟨id, hid, hget⟩ := Option.bind_eq_some_iff.1 hp
  obtain ⟨hmem, rfl⟩ := get?_eq_some hget
  exact ⟨hmem, (h.parent_of_holds hc hid).2⟩

/-- The parent of a token is always there. -/
theorem get?_parent (h : P.Coherent hand) {c : Token} (hc : P.Holds c)
    (hparent : c.parentTokenId ≠ none) : c.parentTokenId.bind P.get? ≠ none := by
  obtain ⟨p, hp⟩ := Option.ne_none_iff_exists'.1 hparent
  obtain ⟨hmem, -⟩ := h.parent_of_holds hc hp
  obtain ⟨x, hx, rfl⟩ := List.mem_map.1 hmem
  rw [hp, Option.bind_some, get?_of_mem h.nodup hx]
  simp

/-! ### Operations -/

theorem of_eq (h : P.Coherent hand) (ht : Q.tokens = P.tokens) (hp : Q.pending = P.pending)
    (hn : Q.nextId = P.nextId) : Q.Coherent hand := by
  have hids : Q.ids = P.ids := by rw [ids, ids, ht]
  have hfl : Q.flight hand = P.flight hand := by rw [flight, flight, hp]
  constructor
  · rw [hids]
    exact h.nodup
  · exact numbered_of_tokens h.numbered ht hn
  · rw [hfl]
    exact h.flightNodup
  · rw [hfl, ht]
    exact h.inFlight
  · rw [hfl, ht]
    exact h.active
  · rw [ht]
    exact h.notSuspended
  · rw [hfl, ht, hids]
    exact h.parents

/-- A new version of a token that is not in flight after that: either it was not before, or it was
the one in hand. -/
theorem put_core (h : P.Coherent hand) {t : Token} {hand' : List Token} (ht : P.Holds t)
    (hactive : t.status ≠ .active) (hsuspended : t.status ≠ .suspended)
    (hsub : List.Sublist (P.flight hand') (P.flight hand))
    (hother : ∀ q ∈ P.flight hand, q.id ≠ t.id → q ∈ P.flight hand')
    (hnot : t.id ∉ (P.flight hand').map (·.id)) : (P.put t).Coherent hand' := by
  have hframe := Frame.put h.nodup ht
  have hmem : ∀ q ∈ P.flight hand', q.id ≠ t.id := fun q hq hid =>
    hnot (List.mem_map.2 ⟨q, hq, hid⟩)
  constructor
  · exact hframe.nodup h.nodup
  · exact hframe.numbered h.numbered
  · exact h.flightNodup.sublist (hsub.map _)
  · intro q hq
    obtain ⟨hqa, hm⟩ := h.inFlight q (hsub.subset hq)
    exact ⟨hqa, hm.imp (fun hm => mem_put_of_ne hm (hmem q hq)) fun hm =>
      mem_put_of_ne hm (hmem q hq)⟩
  · intro x hx hxa
    rcases mem_put hx with rfl | ⟨hx, hne⟩
    · exact absurd hxa hactive
    · exact hother x (h.active x hx hxa) hne
  · intro x hx
    rcases mem_put hx with rfl | ⟨hx, -⟩
    · exact hsuspended
    · exact h.notSuspended x hx
  · intro x hx p hp
    rw [hframe.ids]
    obtain ⟨y, hy, hyx⟩ := hframe.exists_mem' hx
    obtain ⟨h1, h2, h3⟩ := h.parents y hy p ((Token.parent_of_bare hyx).trans hp)
    rw [Token.id_of_bare hyx] at h2
    exact ⟨h1, h2, fun hm => h3 ((hsub.map _).subset hm)⟩

theorem put (h : P.Coherent hand) {t : Token} (ht : P.Holds t) (hactive : t.status ≠ .active)
    (hsuspended : t.status ≠ .suspended) (hnot : t.id ∉ (P.flight hand).map (·.id)) :
    (P.put t).Coherent hand :=
  h.put_core ht hactive hsuspended (List.Sublist.refl _) (fun _ hq _ => hq) hnot

/-- The token in hand stops being active. -/
theorem put_hand {t u : Token} (h : P.Coherent [t]) (hb : u.bare = t.bare)
    (hactive : u.status ≠ .active) (hsuspended : u.status ≠ .suspended) :
    (P.put u).Coherent [] := by
  have hid := Token.id_of_bare hb
  have ht : P.Holds u := by
    unfold Holds
    rw [hb]
    exact h.holds List.mem_cons_self
  refine h.put_core ht hactive hsuspended (List.sublist_cons_self t P.pending) ?_ ?_
  · intro q hq hne
    rcases List.mem_cons.1 hq with rfl | hq
    · exact absurd hid.symm hne
    · exact hq
  · have hnd := h.flightNodup
    rw [flight, List.singleton_append, List.map_cons, List.nodup_cons, ← hid] at hnd
    exact hnd.1

theorem cancelAll (h : P.Coherent hand) (p : Token → Bool) : (P.cancelAll p).Coherent hand := by
  have hframe := Frame.cancelAll P p
  constructor
  · exact hframe.nodup h.nodup
  · exact hframe.numbered h.numbered
  · exact h.flightNodup
  · intro q hq
    obtain ⟨hqa, hm | hm⟩ := h.inFlight q hq
    · refine ⟨hqa, ?_⟩
      have hk := List.mem_map_of_mem (f := kill p) hm
      unfold kill at hk
      by_cases hp : p q
      · rw [if_pos hp] at hk
        exact Or.inr hk
      · rw [if_neg hp] at hk
        exact Or.inl hk
    · refine ⟨hqa, Or.inr ?_⟩
      have hk := List.mem_map_of_mem (f := kill p) hm
      unfold kill at hk
      split_ifs at hk <;> exact hk
  · intro x hx hxa
    obtain ⟨y, hy, rfl⟩ := List.mem_map.1 hx
    unfold kill at hxa ⊢
    by_cases hp : p y
    · rw [if_pos hp] at hxa
      cases hxa
    · rw [if_neg hp] at hxa ⊢
      exact h.active y hy hxa
  · intro x hx
    obtain ⟨y, hy, rfl⟩ := List.mem_map.1 hx
    unfold kill
    by_cases hp : p y
    · rw [if_pos hp]
      simp
    · rw [if_neg hp]
      exact h.notSuspended y hy
  · intro x hx p hp
    rw [hframe.ids]
    obtain ⟨y, hy, hyx⟩ := hframe.exists_mem' hx
    have := h.parents y hy p ((Token.parent_of_bare hyx).trans hp)
    rwa [Token.id_of_bare hyx] at this

theorem finish (h : P.Coherent hand) {t : Token} (ht : P.Holds t)
    (hnot : t.id ∉ (P.flight hand).map (·.id)) : (P.finish t).Coherent hand :=
  h.put (t := { t with status := .completed }) ht (by simp) (by simp) hnot

theorem finish_hand {t : Token} (h : P.Coherent [t]) : (P.finish t).Coherent [] :=
  h.put_hand (u := { t with status := .completed }) rfl (by simp) (by simp)

theorem cancelOne (h : P.Coherent hand) {t : Token} (ht : P.Holds t)
    (hnot : t.id ∉ (P.flight hand).map (·.id)) : (P.cancelOne t).Coherent hand :=
  (h.put (t := { t with status := .cancelled }) ht (by simp) (by simp) hnot).of_eq rfl rfl rfl

theorem clearSiblings (h : P.Coherent hand) (w : Token) : (P.clearSiblings w).Coherent hand := by
  unfold Pool.clearSiblings
  cases w.parentTokenId with
  | none => exact h
  | some parent => exact h.cancelAll _

end Coherent

end Pool

/-! ## The parents of new tokens -/

/-- The parent that a new token of this origin gets. -/
def Origin.parent : Origin → Option Nat
  | .child parent _ => some parent.id
  | .handler source _ _ => some source.id
  | .branch gate _ => some gate.id
  | _ => none

variable {d : ProcessDefinition} {P Q : Pool} {origins : List Origin}

/-- The tag that a new token of this origin gets. -/
def Origin.tag : Origin → Option String
  | .flow src _ => truthy src.subProcessInstanceId
  | .boundary host _ => truthy host.subProcessInstanceId
  | .inner outer _ => some outer.elementId
  | .handler _ _ tag => tag
  | .start | .child _ _ | .branch _ _ => none

/-- A new token has the parent and the tag of its origin. -/
theorem Made.eq_newToken {o : Origin} {t : Token} (h : Made d o t) :
    ∃ instanceId elementId elementType scopeId via,
      t = newToken t.id instanceId elementId elementType scopeId via o.parent o.tag := by
  cases o with
  | start =>
    obtain ⟨_, _, _, -, h⟩ := h
    exact ⟨_, _, _, _, _, h⟩
  | flow src flowId =>
    obtain ⟨_, _, -, -, h⟩ := h
    exact ⟨_, _, _, _, _, h⟩
  | boundary host event => exact ⟨_, _, _, _, _, h⟩
  | inner outer startEventId =>
    obtain ⟨_, _, h⟩ := h
    exact ⟨_, _, _, _, _, h⟩
  | child parent element =>
    obtain ⟨_, h⟩ := h
    exact ⟨_, _, _, _, _, h⟩
  | handler source element tag =>
    obtain ⟨_, h⟩ := h
    exact ⟨_, _, _, _, _, h⟩
  | branch gate flow =>
    obtain ⟨_, -, h⟩ := h
    exact ⟨_, _, _, _, _, h⟩

theorem Made.parent {o : Origin} {t : Token} (h : Made d o t) : t.parentTokenId = o.parent := by
  obtain ⟨_, _, _, _, _, h⟩ := h.eq_newToken
  rw [h]
  rfl

theorem Made.tag {o : Origin} {t : Token} (h : Made d o t) :
    t.subProcessInstanceId = o.tag := by
  obtain ⟨_, _, _, _, _, h⟩ := h.eq_newToken
  rw [h]
  rfl

/-- A coherent pool, ready for tokens of the given origins. -/
structure Pool.Ready (Q : Pool) (origins : List Origin) : Prop where
  coherent : Q.Coherent []
  parents : ∀ o ∈ origins, ∀ p, o.parent = some p → p ∈ Q.ids ∧ p ∉ Q.pending.map (·.id)

theorem Pool.Ready.spawned {P' : Pool} (h : Q.Ready origins)
    (hmade : Spawned (Made d) origins Q P') : P'.Coherent [] := by
  obtain ⟨news, n, hR, hf, rfl⟩ := hmade
  have hQ := h.coherent
  have hge : ∀ x ∈ Q.tokens, ∀ t ∈ news, x.id < t.id := fun x hx t ht =>
    (hQ.numbered x hx).trans_le (hf.ge t ht)
  have hpending : ∀ q ∈ Q.pending, q.id ∈ Q.ids := fun q hq => (hQ.holds hq).mem_ids
  have hidlt : ∀ i ∈ Q.ids, ∀ t ∈ news, i < t.id := by
    intro i hi t ht
    obtain ⟨x, hx, rfl⟩ := List.mem_map.1 hi
    exact hge x hx t ht
  constructor
  · rw [Pool.ids, Pool.spawn, List.map_append, List.nodup_append]
    refine ⟨hQ.nodup, hf.nodup, ?_⟩
    rintro a ha b hb rfl
    obtain ⟨t, ht, rfl⟩ := List.mem_map.1 hb
    exact (hidlt _ ha t ht).ne rfl
  · exact hQ.numbered.spawn hf
  · rw [Pool.flight_spawn, List.map_append, List.nodup_append]
    refine ⟨hQ.flightNodup, hf.nodup, ?_⟩
    rintro a ha b hb rfl
    obtain ⟨q, hq, hqa⟩ := List.mem_map.1 ha
    obtain ⟨t, ht, rfl⟩ := List.mem_map.1 hb
    exact (hidlt _ (hpending q hq) t ht).ne hqa
  · intro q hq
    rw [Pool.flight_spawn] at hq
    rcases List.mem_append.1 hq with hq | hq
    · obtain ⟨hqa, hm⟩ := hQ.inFlight q hq
      exact ⟨hqa, hm.imp (List.mem_append_left _) (List.mem_append_left _)⟩
    · exact ⟨hf.active q hq, Or.inl (List.mem_append_right _ hq)⟩
  · intro x hx hxa
    rw [Pool.flight_spawn]
    rcases List.mem_append.1 hx with hx | hx
    · exact List.mem_append_left _ (hQ.active x hx hxa)
    · exact List.mem_append_right _ hx
  · intro x hx
    rcases List.mem_append.1 hx with hx | hx
    · exact hQ.notSuspended x hx
    · simp [hf.active x hx]
  · intro x hx p hp
    have hold : ∀ p ∈ Q.ids, p ∉ Q.pending.map (·.id) →
        p ∉ ((Q.spawn news n).flight []).map (·.id) := by
      intro p hp hno hm
      rw [Pool.flight_spawn] at hm
      obtain ⟨q, hq, rfl⟩ := List.mem_map.1 hm
      rcases List.mem_append.1 hq with hq | hq
      · exact hno (List.mem_map.2 ⟨q, hq, rfl⟩)
      · exact (hidlt _ hp q hq).ne rfl
    have hsub : ∀ p ∈ Q.ids, p ∈ (Q.spawn news n).ids := by
      intro p hp
      rw [Pool.ids, Pool.spawn, List.map_append]
      exact List.mem_append_left _ hp
    rcases List.mem_append.1 hx with hx | hx
    · obtain ⟨h1, h2, h3⟩ := hQ.parents x hx p hp
      exact ⟨hsub p h1, h2, hold p h1 h3⟩
    · obtain ⟨o, ho, hox⟩ := exists_of_forall₂_right hR hx
      obtain ⟨h1, h2⟩ := h.parents o ho p (hox.parent ▸ hp)
      exact ⟨hsub p h1, hidlt p h1 x hx, hold p h1 h2⟩

/-! ## The rules -/

open Pool

theorem ready_onFlows (h : Q.Coherent []) (src : Token) (flows : List String) :
    Q.Ready (onFlows src flows) := by
  refine ⟨h, fun o ho p hp => ?_⟩
  obtain ⟨flowId, -, rfl⟩ := List.mem_map.1 ho
  cases hp

theorem ready_nil (h : Q.Coherent []) : Q.Ready [] := ⟨h, by simp⟩

/-- All new tokens get the same parent, or none. -/
theorem ready_of_parent (h : Q.Coherent []) {t : Token} (hid : t.id ∈ Q.ids)
    (hnot : t.id ∉ Q.pending.map (·.id))
    (horigins : ∀ o ∈ origins, o.parent = none ∨ o.parent = some t.id) : Q.Ready origins := by
  refine ⟨h, fun o ho p hp => ?_⟩
  rcases horigins o ho with hno | hsome
  · rw [hno] at hp
    cases hp
  · rw [hsome] at hp
    cases hp
    exact ⟨hid, hnot⟩

theorem parent_handlersFor {find : String → Option BpmnFlowElement} {source : Token}
    {tag : Option String} {records : List CompensationRecord} {o : Origin}
    (h : o ∈ handlersFor find source tag records) : o.parent = some source.id := by
  obtain ⟨r, -, hr⟩ := List.mem_filterMap.1 h
  obtain ⟨e, -, rfl⟩ := Option.map_eq_some_iff.1 hr
  rfl

theorem SubEnd.ready {s : String} (hP : P.Coherent []) (h : SubEnd d s P Q origins) :
    Q.Ready origins := by
  cases h with
  | busy _ => exact ready_nil hP
  | orphan _ _ => exact ready_nil hP
  | complete _ houter _ =>
    obtain ⟨hm, -, hw⟩ := waitingAt_eq_some houter
    exact ready_onFlows (hP.finish (holds_of_mem hm) (hP.waiting_notMem_flight hm hw)) _ _

theorem FireCancel.ready {s : String} {outer : Token} (hP : P.Coherent []) (ho : outer ∈ P.tokens)
    (how : outer.status = .waiting) (h : FireCancel d s outer P Q origins) : Q.Ready origins := by
  cases h with
  | none _ => exact ready_nil hP
  | unarmed _ _ => exact ready_nil hP
  | fire _ hw =>
    obtain ⟨hm, -, hw⟩ := waitingAt_eq_some hw
    have hfin := hP.finish (holds_of_mem hm) (hP.waiting_notMem_flight hm hw)
    have hframe := Frame.finish hP.nodup (holds_of_mem hm)
    exact ready_onFlows (hfin.cancelOne (hframe.holds (holds_of_mem ho))
      (hP.waiting_notMem_flight ho how)) _ _

theorem Pool.Coherent.clearScope {hand : List Token} (h : P.Coherent hand) (s : String)
    (t : Token) : (P.clearScope s t).Coherent hand :=
  (h.cancelAll _).of_eq rfl rfl rfl

theorem TxCancel.ready {s : String} {t : Token} (hP : P.Coherent []) (ht : P.Holds t)
    (hnot : t.id ∉ P.pending.map (·.id)) (h : TxCancel d s t P Q origins) : Q.Ready origins := by
  have hclear := hP.clearScope s t
  have hframe := Frame.clearScope P s t
  cases h with
  | compensate _ =>
    exact ready_of_parent hclear (hframe.holds ht).mem_ids hnot fun o ho =>
      Or.inr (parent_handlersFor ho)
  | orphan _ _ => exact ready_nil hclear
  | fire _ houter hfire =>
    obtain ⟨hm, -, hw⟩ := waitingAt_eq_some houter
    exact hfire.ready hclear hm hw

theorem Ends.ready {t : Token} {e : EventElement} (hP : P.Coherent []) (ht : P.Holds t)
    (hnot : t.id ∉ P.pending.map (·.id)) (h : Ends d t P e Q origins) : Q.Ready origins := by
  cases h with
  | cancelTop _ _ => exact ready_nil hP
  | cancel _ _ h => exact h.ready hP ht hnot
  | terminate _ => exact ready_nil ((hP.cancelAll _).of_eq rfl rfl rfl)
  | inner _ _ _ h => exact h.ready hP
  | last _ _ _ _ _ => exact ready_nil (hP.of_eq rfl rfl rfl)
  | more _ _ _ _ => exact ready_nil hP

/-- A child completes.  It is either the token in hand or a waiting one, so that it is not in flight
afterwards. -/
theorem ChildDone.ready {c : Token} {e : BpmnFlowElement} {lc : MultiInstanceLoopCharacteristics}
    {hand : List Token} (hP : P.Coherent hand) (hc : P.Holds c) (hfin : (P.finish c).Coherent [])
    (hparent : c.parentTokenId.bind P.get? ≠ none) (h : ChildDone c e lc P Q origins) :
    Q.Ready origins := by
  have hframe := Frame.finish hP.nodup hc
  -- the parent is an older token and stays as it is when the child is finished
  have hpar : ∀ p, c.parentTokenId.bind P.get? = some p →
      (P.finish c).Holds p ∧ p.id ∉ (P.finish c).pending.map (·.id) := by
    intro p hp
    obtain ⟨hm, hlt, hnot⟩ := hP.of_get?_parent hc hp
    refine ⟨hframe.holds (holds_of_mem hm), fun hq => hnot ?_⟩
    rw [hframe.pending] at hq
    rw [flight, List.map_append]
    exact List.mem_append_right _ hq
  have hclose : ∀ {R : Pool} (p : Token), R.Coherent [] → R.Holds p →
      p.id ∉ R.pending.map (·.id) → (R.closeLoop p e.id).Ready (onFlows p e.outgoingFlows) :=
    fun p hR hp hnot => ready_onFlows ((hR.finish hp hnot).cancelAll _) _ _
  cases h with
  | orphan h => exact absurd h hparent
  | noLoop _ _ _ => exact ready_nil hfin
  | @next p hp _ hsome loopState =>
    obtain ⟨hh, hnot⟩ := hpar p hp
    obtain ⟨hm, -, hnotflight⟩ := hP.of_get?_parent hc hp
    have hactive : p.status ≠ .active := fun ha =>
      hnotflight (List.mem_map.2 ⟨p, hP.active p hm ha, rfl⟩)
    have hput := hfin.put (t := { p with loopState := some loopState }) hh hactive
      (hP.notSuspended p hm) hnot
    refine ready_of_parent (t := p) hput ?_ hnot fun o ho => ?_
    · rw [ids_put]
      exact hh.mem_ids
    · rw [List.mem_singleton.1 ho]
      exact Or.inr rfl
  | @lastItem p hp _ _ => exact hclose p hfin (hpar p hp).1 (hpar p hp).2
  | @condition p hp _ _ =>
    exact hclose p (hfin.cancelAll _) ((Frame.clearChildren _ p.id).holds (hpar p hp).1)
      (hpar p hp).2
  | @allDone p hp _ _ => exact hclose p hfin (hpar p hp).1 (hpar p hp).2
  | wait _ _ _ => exact ready_nil hfin

theorem HandlerDone.ready {h throwToken : Token} (hP : P.Coherent []) (hh : h ∈ P.tokens)
    (hw : h.status = .waiting) (hth : throwToken ∈ P.tokens)
    (hnot : throwToken.id ∉ P.pending.map (·.id)) (hd : HandlerDone d h throwToken P Q origins) :
    Q.Ready origins := by
  have hfin := hP.finish (holds_of_mem hh) (hP.waiting_notMem_flight hh hw)
  have hframe := Frame.finish hP.nodup (holds_of_mem hh)
  cases hd with
  | wait _ => exact ready_nil hfin
  | orphan _ _ _ _ _ => exact ready_nil hfin
  | fire _ _ _ _ houter hfire =>
    obtain ⟨hm, -, hw⟩ := waitingAt_eq_some houter
    exact hfire.ready hfin hm hw
  | advance _ _ _ =>
    exact ready_onFlows (hfin.finish (hframe.holds (holds_of_mem hth)) hnot) _ _

/-- A turn leaves a coherent pool. -/
theorem Turn.ready {t : Token} (hP : P.Coherent [t]) (h : Turn d P t Q origins) :
    Q.Ready origins := by
  have ht : P.Holds t := hP.holds List.mem_cons_self
  have hnot : t.id ∉ P.pending.map (·.id) := by
    have hnd := hP.flightNodup
    rw [flight, List.singleton_append, List.map_cons, List.nodup_cons] at hnd
    exact hnd.1
  have hfin := hP.finish_hand
  cases h with
  | pass _ _ _ =>
    refine ready_onFlows ?_ _ _
    exact hfin.of_eq rfl rfl rfl
  | @park e _ condition loopState origins records hpark =>
    have hput : (P.park t condition loopState).Coherent [] :=
      hP.put_hand (u := { t with status := .waiting, waitingFor := some condition, loopState })
        rfl (by simp) (by simp)
    have hids : t.id ∈ (P.park t condition loopState).ids := by
      rw [Pool.park, ids_put]
      exact ht.mem_ids
    refine ready_of_parent (t := t) (hput.of_eq rfl rfl rfl) hids hnot fun o ho => ?_
    cases hpark with
    | serviceTask _ _ | userTask _ _ =>
      obtain ⟨b, -, rfl⟩ := List.mem_map.1 ho
      exact Or.inl rfl
    | scriptTask _ _ | catchEvent _ _ | boundaryEvent _ _ => cases ho
    | sequential _ _ _ _ _ =>
      rw [List.mem_singleton.1 ho]
      exact Or.inr rfl
    | parallel _ _ _ _ n =>
      rw [List.eq_of_mem_replicate ho]
      exact Or.inr rfl
    | subProcess _ isTransaction _ _ _ =>
      rcases List.mem_append.1 ho with ho | ho
      · split_ifs at ho
        · obtain ⟨b, -, rfl⟩ := List.mem_map.1 ho
          exact Or.inl rfl
        · cases ho
      · rw [List.mem_singleton.1 ho]
        exact Or.inl rfl
    | throwEvent _ _ _ => exact Or.inr (parent_handlersFor ho)
  | branch _ _ _ =>
    refine ready_of_parent (t := t) hfin ?_ hnot fun o ho => ?_
    · rw [Pool.finish, ids_put]
      exact ht.mem_ids
    · obtain ⟨f, -, rfl⟩ := List.mem_map.1 ho
      exact Or.inr rfl
  | ends _ h => exact h.ready hfin ((Frame.finish hP.nodup ht).holds ht) hnot
  | child _ _ hparent h =>
    exact h.ready hP ht hfin (hP.get?_parent ht hparent)

theorem Pool.parent_of_role {w : Token} {e : BpmnFlowElement}
    {lc : MultiInstanceLoopCharacteristics} (h : P.role w e = .child lc) :
    w.parentTokenId.bind P.get? ≠ none := by
  intro hnone
  unfold role at h
  rw [hnone] at h
  cases h

theorem Complete.ready {w : Token} (hP : P.Coherent []) (hw : w ∈ P.tokens)
    (hwaiting : w.status = .waiting) (h : Complete d P w Q origins) : Q.Ready origins := by
  have hr : P.autoResume.Coherent [] := hP.of_eq rfl rfl rfl
  have hnot := hP.waiting_notMem_flight hw hwaiting
  cases h with
  | @child e _ lc hrole _ _ h =>
    exact h.ready hr (holds_of_mem hw) (hr.finish (holds_of_mem hw) hnot) (parent_of_role hrole)
  | @handler e _ th hrole _ _ h =>
    obtain ⟨hm, -, hnotth⟩ := hP.of_get?_parent (holds_of_mem hw) (holds_of_role hrole)
    exact h.ready hr hw hwaiting hm hnotth
  | plain _ _ _ =>
    have hc := hr.cancelAll fun t =>
      t.status = .waiting ∧ t.elementType = .boundaryEvent ∧ t.hostTaskId = some w.elementId
    have hh : (P.autoResume.clearBoundaries w.elementId).Holds w :=
      (Frame.clearBoundaries P.autoResume w.elementId).holds (holds_of_mem hw)
    refine ready_onFlows ?_ _ _
    exact (hc.finish hh hnot).of_eq rfl rfl rfl

theorem Resume.ready {w : Token} (hP : P.Coherent []) (hw : w ∈ P.tokens)
    (hwaiting : w.status = .waiting) (h : Resume d P w Q origins) : Q.Ready origins := by
  obtain ⟨-⟩ := h
  have hfin := hP.finish (holds_of_mem hw) (hP.waiting_notMem_flight hw hwaiting)
  exact ready_onFlows (hfin.clearSiblings w) _ _

/-- A waiting token is not touched when the waiting siblings of another token are cancelled, unless
it is one of them. -/
theorem mem_clearSiblings_self {w : Token} (hw : w ∈ P.tokens) :
    w ∈ (P.clearSiblings w).tokens := by
  unfold Pool.clearSiblings
  cases w.parentTokenId with
  | none => exact hw
  | some parent =>
    refine List.mem_map.2 ⟨w, hw, ?_⟩
    simp [kill]

theorem Deed.ready {command : EngineCommand} (hP : P.Coherent []) (h : Deed d P command Q origins) :
    Q.Ready origins := by
  cases h with
  | startProcess _ _ _ =>
    refine ⟨hP.of_eq rfl rfl rfl, fun o ho p hp => ?_⟩
    rw [List.mem_singleton.1 ho] at hp
    cases hp
  | completeServiceTask _ hw hwaiting h => exact h.ready hP hw hwaiting
  | completeUserTask _ _ hw hwaiting h => exact h.ready hP hw hwaiting
  | failCaught _ hw hwaiting _ =>
    exact ready_onFlows ((hP.cancelOne (holds_of_mem hw)
      (hP.waiting_notMem_flight hw hwaiting)).cancelAll _) _ _
  | failUncaught _ _ _ _ => exact ready_nil (hP.of_eq rfl rfl rfl)
  | fireInterrupting hw hwaiting _ _ _ =>
    exact ready_onFlows ((hP.finish (holds_of_mem hw)
      (hP.waiting_notMem_flight hw hwaiting)).cancelAll _) _ _
  | fireBoundary hw hwaiting _ _ _ =>
    exact ready_onFlows (hP.finish (holds_of_mem hw) (hP.waiting_notMem_flight hw hwaiting)) _ _
  | fireCatch hw hwaiting _ h =>
    exact h.ready (hP.clearSiblings _) (mem_clearSiblings_self hw) hwaiting
  | suspendInstance _ => exact ready_nil (hP.of_eq rfl rfl rfl)
  | resumeInstance _ => exact ready_nil (hP.of_eq rfl rfl rfl)
  | cancelInstance => exact ready_nil ((hP.cancelAll _).of_eq rfl rfl rfl)

theorem Resumes.coherent {targets : List Token} {P' : Pool} (hP : P.Coherent [])
    (h : Resumes d targets P P') : P'.Coherent [] := by
  induction h with
  | nil _ => exact hP
  | skip _ _ _ ih => exact ih hP
  | resume hw hwaiting hresume hmade _ ih => exact ih ((hresume.ready hP hw hwaiting).spawned hmade)

/-- A command leaves a coherent pool. -/
theorem Commanded.coherent {command : EngineCommand} {P' : Pool} (hP : P.Coherent [])
    (h : Commanded d P command P') : P'.Coherent [] := by
  cases h with
  | deed h hmade => exact (h.ready hP).spawned hmade
  | deliverMessage _ _ h => exact h.coherent hP
  | broadcastSignal _ _ h => exact h.coherent hP

/-! ## What stays where it is -/

theorem Spawned.holds {α : Type} {R : α → Token → Prop} {items : List α} {P P' : Pool} {x : Token}
    (hx : P.Holds x) (h : Spawned R items P P') : P'.Holds x := by
  obtain ⟨y, hy, hbare⟩ := Pool.holds_iff.1 hx
  obtain ⟨news, n, -, -, rfl⟩ := h
  exact Pool.holds_iff.2 ⟨y, List.mem_append_left _ hy, hbare⟩

theorem Resumes.holds {targets : List Token} {P' : Pool} {x : Token} (hP : P.Coherent [])
    (hx : P.Holds x) (h : Resumes d targets P P') : P'.Holds x := by
  induction h with
  | nil _ => exact hx
  | skip _ _ _ ih => exact ih hP hx
  | resume hw hwaiting hresume hmade _ ih =>
    have hframe := hresume.frame hP.nodup (Pool.holds_of_mem hw)
    exact ih ((hresume.ready hP hw hwaiting).spawned hmade) (hmade.holds (hframe.holds hx))

theorem Commanded.holds {command : EngineCommand} {P' : Pool} {x : Token} (hP : P.Coherent [])
    (hx : P.Holds x) (h : Commanded d P command P') : P'.Holds x := by
  cases h with
  | deed hd hmade => exact hmade.holds ((hd.frame hP.nodup).holds hx)
  | deliverMessage _ _ h | broadcastSignal _ _ h => exact h.holds hP hx

end NexusWorkflow
