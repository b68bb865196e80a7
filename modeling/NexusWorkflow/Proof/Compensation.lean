import NexusWorkflow.Model.Persist
import NexusWorkflow.Run.Diagram

/-!
# Order of compensation

The records of a run lie in the context in the order in which their activities have completed, until
the state is stored and loaded again: then they come by their times, and those with one time in any
order.  What a compensation takes out is sorted by the times again, the latest first.
-/

namespace NexusWorkflow

open ExecutionContext (latestFirst)

/-! ## The records of a run -/

/-- The records that a compensation with this target leaves. -/
def leaves (target : Option String) (r : CompensationRecord) : Bool := target.any (r.activityId ≠ ·)

/-- A run has left the first records, in the order in which their activities have completed, and has
them as the second list. -/
inductive Filed (instanceId : Nat) : List CompensationRecord → List CompensationRecord → Prop
  | none : Filed instanceId [] []
  | complete {done records : List CompensationRecord} {r : CompensationRecord}
      (h : Filed instanceId done records) (hinstance : r.instanceId = instanceId)
      (htoken : r.tokenId ∉ done.map CompensationRecord.tokenId) :
      Filed instanceId (done ++ [r]) (records ++ [r])
  | consume {done records : List CompensationRecord} (target : Option String)
      (h : Filed instanceId done records) :
      Filed instanceId (done.filter (leaves target)) (records.filter (leaves target))
  | reload {done records : List CompensationRecord} (store : Store) (order : RowOrder)
      (h : Filed instanceId done records)
      (hrows : (store.compensationRecords.values.filter (·.instanceId = instanceId)).Perm records) :
      Filed instanceId done (store.listCompensationRecords order instanceId)

namespace Filed

variable {instanceId : Nat} {done records : List CompensationRecord}

theorem perm (h : Filed instanceId done records) : records.Perm done := by
  induction h with
  | none => exact .refl _
  | complete h hinstance htoken ih => exact ih.append_right _
  | consume target h ih => exact ih.filter _
  | reload store order h hrows ih =>
    exact ((List.perm_insertionSort _ _).trans
      ((order.perm_compensationRecords _).trans hrows)).trans ih

theorem instanceId_of_mem (h : Filed instanceId done records) {r : CompensationRecord}
    (hr : r ∈ done) : r.instanceId = instanceId := by
  induction h with
  | none => cases hr
  | complete h hinstance htoken ih =>
    rcases List.mem_append.1 hr with hr | hr
    · exact ih hr
    · rw [List.mem_singleton.1 hr]
      exact hinstance
  | consume target h ih => exact ih (List.mem_filter.1 hr).1
  | reload store order h hrows ih => exact ih hr

theorem nodup (h : Filed instanceId done records) :
    (done.map CompensationRecord.tokenId).Nodup := by
  induction h with
  | none => exact List.nodup_nil
  | complete h hinstance htoken ih =>
    rw [List.map_append, List.map_singleton, ← List.concat_eq_append]
    exact ih.concat htoken
  | consume target h ih => exact ih.sublist ((List.filter_sublist).map _)
  | reload store order h hrows ih => exact ih

/-- The run may have kept the records in memory all the time. -/
theorem self (h : Filed instanceId done records) : Filed instanceId done done := by
  have hinstance : ∀ r ∈ done, r.instanceId = instanceId := fun r hr => h.instanceId_of_mem hr
  have hnodup := h.nodup
  clear h
  induction done using List.reverseRecOn with
  | nil => exact .none
  | append_singleton done r ih =>
    rw [List.map_append, List.map_singleton] at hnodup
    have hdisjoint := List.nodup_append.1 hnodup
    refine .complete (ih (fun x hx => hinstance x (List.mem_append_left _ hx)) hdisjoint.1)
      (hinstance r (List.mem_append_right _ (List.mem_singleton_self r))) fun hmem => ?_
    exact hdisjoint.2.2 _ hmem _ (List.mem_singleton_self _) rfl

end Filed

/-! ## What a compensation starts -/

/-- What takes the records out. -/
inductive Compensation where
  /-- A throw event, for one activity or for all. -/
  | thrown (target : Option String)
  | cancelled
  deriving DecidableEq

namespace Compensation

def target : Compensation → Option String
  | thrown target => target
  | cancelled => none

/-- Where the handler of a record is looked up. -/
def findHandler (d : ProcessDefinition) : Compensation → String → Option BpmnFlowElement
  | thrown _, handlerId => d.elements.find? (·.id = handlerId)
  | cancelled, handlerId => findElementInTree d.elements handlerId

/-- The handler of the record can be started. -/
def handles (c : Compensation) (d : ProcessDefinition) (r : CompensationRecord) : Bool :=
  (c.findHandler d r.handlerId).isSome

/-- The record is one that the compensation takes out, and its handler can be started. -/
def concerns (c : Compensation) (d : ProcessDefinition) (r : CompensationRecord) : Bool :=
  !leaves c.target r && c.handles d r

/-- The records whose handlers are started, in this order. -/
def started (c : Compensation) (d : ProcessDefinition) (ctx : ExecutionContext) :
    List CompensationRecord :=
  (consumeRecords ctx c.target).1.filter (c.handles d)

variable {c : Compensation} {d : ProcessDefinition} {ctx : ExecutionContext}

theorem taken_eq (target : Option String) :
    (consumeRecords ctx target).1 =
    latestFirst (ctx.compensationList.filter fun r => !leaves target r) := by
  cases target with
  | none => simp [consumeRecords, ExecutionContext.consumeAllCompensationRecords, leaves]
  | some activity => simp [consumeRecords, ExecutionContext.consumeCompensationRecords, leaves]

theorem pairwise_latestFirst (records : List CompensationRecord) :
    (latestFirst records).Pairwise fun a b => b.completedAt ≤ a.completedAt :=
  List.pairwise_insertionSort _ _

theorem started_perm {records : List CompensationRecord} (h : ctx.compensationList.Perm records) :
    (c.started d ctx).Perm (records.filter (c.concerns d)) := by
  have hfilter : records.filter (c.concerns d) =
      (records.filter fun r => !leaves c.target r).filter (c.handles d) := by
    rw [List.filter_filter]
    refine List.filter_congr fun r _ => ?_
    rw [concerns, Bool.and_comm]
  rw [hfilter, started, taken_eq]
  exact ((List.perm_insertionSort _ _).trans (h.filter _)).filter _

/-- When the times rise from one completion to the next, the last activity is compensated first. -/
theorem started_eq_reverse {done : List CompensationRecord} (h : ctx.compensationList.Perm done)
    (hrise : (done.filter (c.concerns d)).Pairwise fun a b => a.completedAt < b.completedAt) :
    c.started d ctx = (done.filter (c.concerns d)).reverse := by
  have htimes : ((done.filter (c.concerns d)).map CompensationRecord.completedAt).Nodup :=
    List.pairwise_map.2 (hrise.imp fun hlt => Int.ne_of_lt hlt)
  have hnewest : (c.started d ctx).Pairwise fun a b => b.completedAt ≤ a.completedAt := by
    rw [started, taken_eq]
    exact (pairwise_latestFirst _).filter _
  refine List.Perm.eq_of_pairwise ?_ hnewest ?_ ?_
  · intro a b ha hb hab hba
    refine List.inj_on_of_nodup_map htimes ((started_perm h).subset ha) (List.mem_reverse.1 hb) ?_
    exact Int.le_antisymm hba hab
  · exact List.pairwise_reverse.2 (hrise.imp fun hlt => Int.le_of_lt hlt)
  · exact (started_perm h).trans (List.reverse_perm _).symm

/-- Of two activities that have completed at one time, or with the clock set back in between, the
first one is compensated first, as long as the records have stayed in memory. -/
theorem pair_sublist_started {a b : CompensationRecord}
    (hab : [a, b].Sublist (ctx.compensationList.filter (c.concerns d)))
    (htime : b.completedAt ≤ a.completedAt) : [a, b].Sublist (c.started d ctx) := by
  have htaken : ctx.compensationList.filter (c.concerns d) =
      (ctx.compensationList.filter fun r => !leaves c.target r).filter (c.handles d) := by
    rw [List.filter_filter]
    exact List.filter_congr fun r _ => Bool.and_comm ..
  have hhandled : ∀ r ∈ [a, b], c.handles d r = true := fun r hr =>
    ((Bool.and_eq_true ..).mp (List.mem_filter.1 (hab.subset hr)).2).2
  have hsorted : [a, b].Sublist
      (latestFirst (ctx.compensationList.filter fun r => !leaves c.target r)) :=
    List.pair_sublist_insertionSort htime (hab.trans (htaken ▸ List.filter_sublist))
  rw [started, taken_eq, ← List.filter_eq_self.2 hhandled]
  exact hsorted.filter _

theorem not_both_orders {a b : CompensationRecord} {l : List CompensationRecord} (hl : l.Nodup)
    (hab : [a, b].Sublist l) (hba : [b, a].Sublist l) : False := by
  induction l with
  | nil => cases hab
  | cons x l ih =>
    obtain ⟨hx, hl⟩ := List.nodup_cons.1 hl
    rcases List.sublist_cons_iff.1 hab with hab' | ⟨_, heq, hb⟩
    · rcases List.sublist_cons_iff.1 hba with hba' | ⟨_, heq, ha⟩
      · exact ih hl hab' hba'
      · cases heq
        exact hx (hab'.subset (by simp))
    · cases heq
      rcases List.sublist_cons_iff.1 hba with hba' | ⟨_, heq, ha⟩
      · exact hx (hba'.subset (by simp))
      · cases heq
        exact hx (hb.subset (by simp))

theorem rises_of_started {instanceId : Nat} {done : List CompensationRecord}
    (h : Filed instanceId done done) (hctx : ctx.compensationList = done)
    (hstarted : c.started d ctx = (done.filter (c.concerns d)).reverse) :
    (done.filter (c.concerns d)).Pairwise fun a b => a.completedAt < b.completedAt := by
  subst hctx
  refine List.pairwise_iff_forall_sublist.2 fun {a b} hab => ?_
  by_contra htime
  have hreverse := pair_sublist_started hab (Int.not_lt.1 htime)
  rw [hstarted, ← List.reverse_sublist, List.reverse_reverse] at hreverse
  exact not_both_orders ((List.Nodup.of_map _ h.nodup).filter _) hab hreverse

end Compensation

/-! ## Starting the handlers -/

/-- Tokens at the handlers of these records have been put into the queue, in this order. -/
def Enqueued (ctx ctx' : ExecutionContext) (records : List CompensationRecord) : Prop :=
  ∃ tokens : List Token, ctx'.pendingQueue = ctx.pendingQueue ++ tokens ∧
    tokens.map Token.elementId = records.map CompensationRecord.handlerId

section Handlers

variable {d : ProcessDefinition} {ctx ctx' : ExecutionContext}

theorem enqueued_startHandlers (find : String → Option BpmnFlowElement) (instanceId : Nat)
    (source : Token) (subProcessInstanceId : Option String) (ctx : ExecutionContext)
    (records acc : List CompensationRecord) :
    Enqueued ctx (records.foldl (startHandler find instanceId source subProcessInstanceId)
      (ctx, acc)).1
        (records.filter fun r => (find r.handlerId).isSome) ∧
      (records.foldl (startHandler find instanceId source subProcessInstanceId) (ctx, acc)).2 =
        acc ++ records.filter fun r => (find r.handlerId).isSome := by
  induction records generalizing ctx acc with
  | nil => exact ⟨⟨[], by simp, rfl⟩, by simp⟩
  | cons r records ih =>
    rw [List.foldl_cons, List.filter_cons]
    cases hfind : find r.handlerId with
    | none =>
      have hskip : startHandler find instanceId source subProcessInstanceId (ctx, acc) r =
          (ctx, acc) := by
        simp [startHandler, hfind]
      rw [hskip]
      simpa using ih ctx acc
    | some element =>
      have hstart : ∃ (ctx₁ : ExecutionContext) (token : Token),
          startHandler find instanceId source subProcessInstanceId
            (ctx, acc) r = (ctx₁, acc ++ [r]) ∧
            ctx₁.pendingQueue = ctx.pendingQueue ++ [token] ∧ token.elementId = r.handlerId := by
        rw [startHandler]
        simp only [hfind]
        exact ⟨_, _, rfl, rfl, rfl⟩
      obtain ⟨ctx₁, token, hstart, hqueue, htoken⟩ := hstart
      rw [hstart]
      obtain ⟨⟨tokens, htokens, hids⟩, hrecords⟩ := ih ctx₁ (acc ++ [r])
      refine ⟨⟨token :: tokens, ?_, ?_⟩, ?_⟩
      · rw [htokens, hqueue, List.append_assoc, List.singleton_append]
      · simp [hids, htoken]
      · rw [hrecords]
        simp

/-- The records are taken out, and nothing else changes. -/
theorem consumeRecords_pendingQueue (ctx : ExecutionContext) (target : Option String) :
    (consumeRecords ctx target).2.pendingQueue = ctx.pendingQueue := by
  cases target <;> rfl

theorem handleCompensationThrow_starts {token : Token} {element : EventElement}
    (h : handleCompensationThrow d ctx token element = .ok ctx')
    (hrecords : (consumeRecords ctx (truthy element.eventDefinition.compensationActivityRef)).1 ≠
    []) : Enqueued ctx ctx'
      ((Compensation.thrown (truthy element.eventDefinition.compensationActivityRef)).started d
      ctx) := by
  unfold handleCompensationThrow at h
  cases hinst : ctx.requireInstance with
  | error e =>
    rw [hinst] at h
    cases h
  | ok inst =>
    rw [hinst] at h
    simp only [bind, Except.bind, List.isEmpty_iff, if_neg hrecords] at h
    cases h
    obtain ⟨⟨tokens, htokens, hids⟩, -⟩ :=
      enqueued_startHandlers (fun handlerId => d.elements.find? (·.id = handlerId))
      inst.id token none
      (suspendToken (consumeRecords ctx (truthy element.eventDefinition.compensationActivityRef)).2
        token .external)
      (consumeRecords ctx (truthy element.eventDefinition.compensationActivityRef)).1 []
    refine ⟨tokens, ?_, hids⟩
    rw [← consumeRecords_pendingQueue ctx (truthy element.eventDefinition.compensationActivityRef)]
    exact htokens

theorem cancelTokens_kept (ctx : ExecutionContext) (tokens : List Token) :
    (ctx.cancelTokens tokens).pendingQueue = ctx.pendingQueue ∧
      (ctx.cancelTokens tokens).compensationList = ctx.compensationList := by
  have hfold : ∀ (now : Time) (ctx : ExecutionContext),
      (tokens.foldl (fun ctx token => ctx.cancelToken token now) ctx).pendingQueue =
        ctx.pendingQueue ∧
        (tokens.foldl (fun ctx token => ctx.cancelToken token now) ctx).compensationList =
          ctx.compensationList := by
    intro now
    induction tokens with
    | nil => exact fun _ => ⟨rfl, rfl⟩
    | cons token tokens ih => exact fun ctx => ih (ctx.cancelToken token now)
  exact hfold _ _

theorem handleTransactionCancel_starts {cancelToken : Token} {subProcessInstanceId : String}
    (h : handleTransactionCancel d ctx cancelToken = .ok ctx')
    (hinside : truthy cancelToken.subProcessInstanceId = some subProcessInstanceId)
    (hrecords : (consumeRecords ctx none).1 ≠ []) :
    Enqueued ctx ctx' (Compensation.cancelled.started d ctx) := by
  unfold handleTransactionCancel at h
  rw [hinside] at h
  cases hinst : ctx.requireInstance with
  | error e =>
    rw [hinst] at h
    cases h
  | ok inst =>
    rw [hinst] at h
    simp only [bind, Except.bind] at h
    generalize hcancelled : ctx.cancelTokens _ = cancelled at h
    have hkept := cancelTokens_kept ctx (ctx.getAllTokens.filter fun t =>
        t.id ≠ cancelToken.id ∧ t.subProcessInstanceId = some subProcessInstanceId ∧ t.live)
    rw [hcancelled] at hkept
    have htaken : (consumeRecords ctx none).1 = latestFirst cancelled.compensationList := by
      rw [hkept.2]
      rfl
    rw [htaken] at hrecords
    unfold ExecutionContext.consumeAllCompensationRecords at h
    split at h
    · next hnone _ => exact absurd hnone hrecords
    · cases h
      obtain ⟨⟨tokens, htokens, hids⟩, -⟩ :=
        enqueued_startHandlers (findElementInTree d.elements) inst.id
        cancelToken (some subProcessInstanceId) { cancelled with compensationList := [] }
        (latestFirst cancelled.compensationList) []
      refine ⟨tokens, ?_, ?_⟩
      · rw [← hkept.1]
        exact htokens
      · rw [Compensation.started]
        show _ = (((consumeRecords ctx none).1).filter _).map _
        rw [htaken]
        exact hids

/-- The engine compensates: a throw event, or a cancel end event inside a transaction, with
something to compensate. -/
inductive Compensation.Runs (d : ProcessDefinition) (ctx ctx' : ExecutionContext) :
    Compensation → Prop
  | thrown {token : Token} {element : EventElement}
      (h : handleCompensationThrow d ctx token element = .ok ctx')
      (hrecords : (consumeRecords ctx (truthy element.eventDefinition.compensationActivityRef)).1 ≠
      []) : Runs d ctx ctx' (.thrown (truthy element.eventDefinition.compensationActivityRef))
  | cancelled {cancelToken : Token} {subProcessInstanceId : String}
      (h : handleTransactionCancel d ctx cancelToken = .ok ctx')
      (hinside : truthy cancelToken.subProcessInstanceId = some subProcessInstanceId)
      (hrecords : (consumeRecords ctx none).1 ≠ []) : Runs d ctx ctx' .cancelled

theorem Compensation.Runs.enqueued {c : Compensation} (h : c.Runs d ctx ctx') :
    Enqueued ctx ctx' (c.started d ctx) := by
  cases h with
  | thrown h hrecords => exact handleCompensationThrow_starts h hrecords
  | cancelled h hinside hrecords => exact handleTransactionCancel_starts h hinside hrecords

end Handlers

/-! ## The order -/

/-- However the run has come to its records, the last activity is compensated first. -/
def LastFirst (instanceId : Nat) (done : List CompensationRecord) (d : ProcessDefinition)
    (c : Compensation) : Prop :=
  ∀ ctx : ExecutionContext, Filed instanceId done ctx.compensationList →
    c.started d ctx = (done.filter (c.concerns d)).reverse

/-- The engine starts the handlers of the records that it takes out in the order of `started`, and
that is the reverse of the order in which the activities have completed if and only if each has
completed at a later time than the one before it. -/
theorem compensates_last_first {instanceId : Nat} {done records : List CompensationRecord}
    (h : Filed instanceId done records) (d : ProcessDefinition) (c : Compensation) :
    (∀ ctx ctx', c.Runs d ctx ctx' → Enqueued ctx ctx' (c.started d ctx)) ∧
      (LastFirst instanceId done d c ↔
        (done.filter (c.concerns d)).Pairwise fun a b => a.completedAt < b.completedAt) := by
  refine ⟨fun ctx ctx' hruns => hruns.enqueued, fun hlast => ?_, fun hrise ctx hctx => ?_⟩
  · have hmemory : ∃ ctx : ExecutionContext, ctx.compensationList = done :=
      ⟨{ ExecutionContext.create none (stopped always 0) with compensationList := done }, rfl⟩
    obtain ⟨ctx, hctx⟩ := hmemory
    exact Compensation.rises_of_started h.self hctx (hlast ctx (hctx ▸ h.self))
  · exact Compensation.started_eq_reverse hctx.perm hrise

/-- Two activities and the handlers that undo them. -/
def reservations : ProcessDefinition :=
  Diagram.definition [] [Diagram.serviceTask [] "refund", Diagram.serviceTask [] "release"]

/-- An activity of the instance that has completed at this time. -/
def reserved (activityId handlerId : String) (tokenId : Nat) (completedAt : Time) :
    CompensationRecord :=
  { instanceId := 1, activityId, tokenId, handlerId, completedAt }

theorem filed_reservations (t : Time) :
    Filed 1 [reserved "pay" "refund" 1 5, reserved "book" "release" 2 t]
      [reserved "pay" "refund" 1 5, reserved "book" "release" 2 t] := by
  have hpay : Filed 1 [reserved "pay" "refund" 1 5] [reserved "pay" "refund" 1 5] :=
      .complete .none rfl (by simp)
  exact hpay.complete (r := reserved "book" "release" 2 t) rfl (by simp [reserved])

/-- One millisecond apart, they are undone in the right order. -/
theorem compensates_last_first_later :
    LastFirst 1 [reserved "pay" "refund" 1 5, reserved "book" "release" 2 6] reservations
      (.thrown none) :=
  (compensates_last_first (filed_reservations 6) reservations (.thrown none)).2.2
    (by decide +kernel)

/-- Within one millisecond, the payment is refunded before the booking is released. -/
theorem not_compensates_last_first :
    ¬ ∀ (instanceId : Nat) (done records : List CompensationRecord), Filed instanceId done records →
      ∀ (d : ProcessDefinition) (c : Compensation), LastFirst instanceId done d c := by
  intro h
  have hstarted := h 1 _ _ (filed_reservations 5) reservations (.thrown none)
    { ExecutionContext.create none (stopped always 0) with
      compensationList := [reserved "pay" "refund" 1 5, reserved "book" "release" 2 5] }
        (filed_reservations 5)
  revert hstarted
  decide +kernel

end NexusWorkflow
