import NexusWorkflow.Run.Diagram
import NexusWorkflow.Lib.Collector

/-!
# The parallel join

The stored state of a parallel join is a collector of the flows that enter the gateway: over a whole
run, whatever else happens in between, the join fires at those arrivals that complete the set of its
incoming flows, and then starts again from nothing.
-/

namespace NexusWorkflow

open Collector ExecutionContext

/-! ## The evaluation of a join -/

theorem mem_set_flowSet {m : FlowSet} {x y : String} :
    y ∈ (m.set x).values ↔ y = x ∨ y ∈ m.values := by
  rw [KeyedMap.mem_set]
  by_cases h : y = x <;> simp [h]

theorem mem_foldl_set_flowSet {l : List String} {m : FlowSet} {y : String} :
    y ∈ (l.foldl KeyedMap.set m).values ↔ y ∈ l ∨ y ∈ m.values := by
  induction l generalizing m with
  | nil => simp
  | cons x l ih =>
    rw [List.foldl_cons, ih, mem_set_flowSet, List.mem_cons]
    tauto

theorem mem_ofList_flowSet {l : List String} {y : String} :
    y ∈ (KeyedMap.ofList l : FlowSet).values ↔ y ∈ l := by
  rw [KeyedMap.ofList, mem_foldl_set_flowSet]
  simp

theorem isSome_get?_flowSet {m : FlowSet} {y : String} : (m.get? y).isSome ↔ y ∈ m.values := by
  rw [Option.isSome_iff_exists]
  constructor
  · rintro ⟨x, hx⟩
    obtain ⟨hm, hxy⟩ := KeyedMap.get?_eq_some_iff.1 hx
    exact (show x = y from hxy) ▸ hm
  · intro h
    exact ⟨y, KeyedMap.get?_eq_some_iff.2 ⟨h, rfl⟩⟩

/-- The join fires when, with the arriving flow, every expected flow has arrived. -/
theorem evaluateParallelJoin_fires_iff {flowId : String} {state : ParallelGatewayJoinState} :
    (evaluateParallelJoin flowId state).fires = true ↔
      Completes state.expectedFlows state.arrivedFromFlows flowId := by
  have harrived : ∀ y, y ∈ ((KeyedMap.ofList state.arrivedFromFlows : FlowSet).set flowId).values ↔
      y = flowId ∨ y ∈ state.arrivedFromFlows := fun y => by
    rw [mem_set_flowSet, mem_ofList_flowSet]
  simp only [evaluateParallelJoin, Bool.and_eq_true, List.all_eq_true, isSome_get?_flowSet,
    harrived,
    decide_eq_true_eq]
  refine ⟨fun h => h.1, fun h => ⟨h, ?_⟩⟩
  -- the sizes agree with the inclusion, since neither set lists a flow twice
  have hsub : (KeyedMap.ofList state.expectedFlows : FlowSet).values ⊆
      ((KeyedMap.ofList state.arrivedFromFlows : FlowSet).set flowId).values := by
    intro y hy
    exact (harrived y).2 (h y (mem_ofList_flowSet.1 hy))
  have hnodup : (KeyedMap.ofList state.expectedFlows : FlowSet).values.Nodup := by
    simpa using (KeyedMap.ofList state.expectedFlows : FlowSet).nodup
  exact (List.subperm_of_subset hnodup hsub).length_le

theorem mem_updatedState {flowId : String} {state : ParallelGatewayJoinState} {y : String} :
    y ∈ (evaluateParallelJoin flowId state).updatedState.arrivedFromFlows ↔
      y = flowId ∨ y ∈ state.arrivedFromFlows := by
  simp only [evaluateParallelJoin]
  rw [mem_set_flowSet, mem_ofList_flowSet]

/-! ## Join states and the rules -/

variable {d : ProcessDefinition} {P Q P' : Pool} {origins : List Origin}

theorem Pool.joins_clearSiblings (P : Pool) (w : Token) : (P.clearSiblings w).joins = P.joins := by
  unfold Pool.clearSiblings
  cases w.parentTokenId <;> rfl

theorem Spawned.joins {α : Type} {R : α → Token → Prop} {items : List α}
    (h : Spawned R items P P') : P'.joins = P.joins := by
  obtain ⟨_, _, -, -, rfl⟩ := h
  rfl

theorem SubEnd.joins {s : String} (h : SubEnd d s P Q origins) : Q.joins = P.joins := by
  cases h <;> rfl

theorem FireCancel.joins {s : String} {outer : Token} (h : FireCancel d s outer P Q origins) :
    Q.joins = P.joins := by
  cases h <;> rfl

theorem TxCancel.joins {s : String} {t : Token} (h : TxCancel d s t P Q origins) :
    Q.joins = P.joins := by
  cases h with
  | compensate _ => rfl
  | orphan _ _ => rfl
  | fire _ _ h => exact h.joins

theorem Ends.joins {t : Token} {e : EventElement} (h : Ends d t P e Q origins) :
    Q.joins = P.joins := by
  cases h with
  | cancel _ _ h => exact h.joins
  | inner _ _ _ h => exact h.joins
  | _ => rfl

theorem ChildDone.joins {c : Token} {e : BpmnFlowElement} {lc : MultiInstanceLoopCharacteristics}
    (h : ChildDone c e lc P Q origins) : Q.joins = P.joins := by
  cases h <;> rfl

theorem HandlerDone.joins {h throwToken : Token} (hd : HandlerDone d h throwToken P Q origins) :
    Q.joins = P.joins := by
  cases hd with
  | fire _ _ _ _ _ h => exact h.joins
  | _ => rfl

theorem Complete.joins {w : Token} (h : Complete d P w Q origins) : Q.joins = P.joins := by
  cases h with
  | child _ _ h => exact h.joins
  | handler _ _ h => exact h.joins
  | plain _ _ _ => rfl

theorem Deed.joins {command : EngineCommand} (h : Deed d P command Q origins) :
    Q.joins = P.joins := by
  cases h with
  | completeServiceTask _ _ _ h => exact h.joins
  | completeUserTask _ _ _ _ h => exact h.joins
  | fireCatch _ _ _ h => exact h.joins.trans (P.joins_clearSiblings _)
  | _ => rfl

theorem Resumes.joins {targets : List Token} (h : Resumes d targets P P') : P'.joins = P.joins := by
  induction h with
  | nil _ => rfl
  | skip _ _ _ ih => exact ih
  | resume _ _ hresume hmade _ ih =>
    obtain ⟨-⟩ := hresume
    rw [ih, hmade.joins, Pool.joins_clearSiblings]
    rfl

/-- A command does not touch the join states. -/
theorem Commanded.joins {command : EngineCommand} (h : Commanded d P command P') :
    P'.joins = P.joins := by
  cases h with
  | deed h hmade => exact hmade.joins.trans h.joins
  | deliverMessage _ _ h => exact h.joins
  | broadcastSignal _ _ h => exact h.joins

/-- A turn changes the join states only when the token passes its element. -/
theorem Turn.joins_cases {t : Token} (h : Turn d P t Q origins) :
    Q.joins = P.joins ∨ ∃ e flows joins, d.getElement t.elementId = .ok e ∧
      Exits d P.joins t e flows joins ∧ Q = { P.finish t with joins } ∧
      origins = onFlows t flows := by
  cases h with
  | pass he h _ => exact Or.inr ⟨_, _, _, he, h, rfl, rfl⟩
  | park _ _ => exact Or.inl rfl
  | branch _ _ _ => exact Or.inl rfl
  | ends _ h => exact Or.inl h.joins
  | child _ _ _ h => exact Or.inl h.joins

/-! ## The stored state is a collector -/

/-- What the stored state of a parallel join says when the flows in `opened` have arrived since it
fired last.  (A state filed by an inclusive split makes every arrival throw.) -/
def JoinHolds (expected opened : List String) : Option GatewayJoinState → Prop
  | none => opened = []
  | some (.parallel s) => s.expectedFlows = expected ∧ ∀ f, f ∈ s.arrivedFromFlows ↔ f ∈ opened
  | some (.inclusive _) => True

/-- The ids of the flows that enter an element. -/
def ProcessDefinition.incomingIds (d : ProcessDefinition) (elementId : String) : List String :=
  (d.getIncomingFlows elementId).map (·.id)

/-- The flow on which a token arrives at the element where it stands; one that arrived on none
counts for the first. -/
def arrivalFlow (d : ProcessDefinition) (t : Token) : String :=
  t.arrivedViaFlowId.getD ((d.incomingIds t.elementId).headD "")

/-- The flows on which tokens arrived at the element, in a history. -/
def arrivals (d : ProcessDefinition) (elementId : String) (steps : List Step) : List String :=
  steps.filterMap fun st =>
    match st.action with
    | .process t => if t.elementId = elementId then some (arrivalFlow d t) else none
    | .command _ => none

/-- The flows that have arrived at the gateway since it fired last, or since the start. -/
def openFlows (d : ProcessDefinition) (gatewayId : String) (steps : List Step) : List String :=
  openAfter (d.incomingIds gatewayId) (arrivals d gatewayId steps)

theorem arrivals_concat_command (d : ProcessDefinition) (elementId : String)
    (steps : List Step) (before after : ExecutionContext) (command : EngineCommand) :
    arrivals d elementId (steps ++ [⟨before, .command command, after⟩]) =
      arrivals d elementId steps := by
  simp [arrivals, List.filterMap_append]

theorem arrivals_concat_process (d : ProcessDefinition) (elementId : String)
    (steps : List Step) (before after : ExecutionContext) (t : Token) :
    arrivals d elementId (steps ++ [⟨before, .process t, after⟩]) =
      arrivals d elementId steps ++
        if t.elementId = elementId then [arrivalFlow d t] else [] := by
  by_cases h : t.elementId = elementId <;> simp [arrivals, List.filterMap_append, h]

theorem openFlows_concat_command (d : ProcessDefinition) (elementId : String)
    (steps : List Step) (before after : ExecutionContext) (command : EngineCommand) :
    openFlows d elementId (steps ++ [⟨before, .command command, after⟩]) =
      openFlows d elementId steps := by
  rw [openFlows, arrivals_concat_command, openFlows]

theorem openFlows_concat_process (d : ProcessDefinition) {elementId : String}
    (steps : List Step) (before after : ExecutionContext) {t : Token}
    (h : t.elementId = elementId) : openFlows d elementId (steps ++ [⟨before, .process t, after⟩]) =
      collect (d.incomingIds elementId) (openFlows d elementId steps) (arrivalFlow d t) := by
  rw [openFlows, arrivals_concat_process, if_pos h, openAfter_concat, openFlows]

theorem openFlows_concat_of_ne (d : ProcessDefinition) {elementId : String}
    (steps : List Step) (before after : ExecutionContext) {t : Token}
    (h : t.elementId ≠ elementId) : openFlows d elementId (steps ++ [⟨before, .process t, after⟩]) =
      openFlows d elementId steps := by
  rw [openFlows, arrivals_concat_process, if_neg h, List.append_nil, openFlows]

section Join

variable {g : GatewayElement}

/-- The rule that a token at a parallel join follows. -/
theorem Turn.parallelJoin {t : Token} {first second : SequenceFlow} {rest : List SequenceFlow}
    (hg : d.getElement g.id = .ok (.gateway g)) (htype : g.type = .parallel)
    (hin : d.getIncomingFlows g.id = first :: second :: rest) (ht : t.elementId = g.id)
    (h : Turn d P t Q origins) :
    ∃ state, JoinStart P.joins g.id (d.getIncomingFlows g.id) state ∧
      (((evaluateParallelJoin (t.arrivedViaFlowId.getD first.id) state).fires = true ∧
          Q = { P.finish t with joins := P.joins.erase g.id } ∧
          origins = onFlows t ((d.getOutgoingFlows g.id).map (·.id))) ∨
        ((evaluateParallelJoin (t.arrivedViaFlowId.getD first.id) state).fires = false ∧
          Q = { P.finish t with joins := P.joins.set (.parallel (evaluateParallelJoin
            (t.arrivedViaFlowId.getD first.id) state).updatedState) } ∧
          origins = onFlows t [])) := by
  rw [← ht] at hg
  cases h with
  | pass he hexit _ =>
    obtain rfl := Except.ok.inj (hg.symm.trans he)
    cases hexit with
    | emptyLoop _ h _ => cases h
    | exclusive _ hg _ => simp [htype] at hg
    | parallelSplit _ _ hin' _ => simp [hin] at hin'
    | parallelFires _ _ hin' hstate hfires =>
      obtain ⟨rfl, -⟩ := List.cons.inj (hin.symm.trans hin')
      exact ⟨_, hstate, Or.inl ⟨hfires, rfl, rfl⟩⟩
    | parallelWaits _ _ hin' hstate hfires =>
      obtain ⟨rfl, -⟩ := List.cons.inj (hin.symm.trans hin')
      exact ⟨_, hstate, Or.inr ⟨hfires, rfl, rfl⟩⟩
    | inclusiveSplit _ hg _ _ _ _ => simp [htype] at hg
    | inclusiveSplitJoin _ hg _ _ _ _ _ _ _ => simp [htype] at hg
    | inclusiveFires _ hg _ _ _ => simp [htype] at hg
    | inclusiveWaits _ hg _ _ _ => simp [htype] at hg
  | park he hpark =>
    obtain rfl := Except.ok.inj (hg.symm.trans he)
    cases hpark with
    | sequential _ h _ _ _ => cases h
    | parallel _ h _ _ _ => cases h
  | branch he hg' _ =>
    obtain rfl := BpmnFlowElement.gateway.inj (Except.ok.inj (hg.symm.trans he))
    simp [htype] at hg'
  | ends he _ => cases hg.symm.trans he
  | child he _ _ _ => cases hg.symm.trans he

theorem gatewayId_updatedState {joins : KeyedMap GatewayJoinState.gatewayId}
    {gatewayId flowId : String} {incoming : List SequenceFlow} {state : ParallelGatewayJoinState}
    (h : JoinStart joins gatewayId incoming state) :
    (evaluateParallelJoin flowId state).updatedState.gatewayId = gatewayId := by
  cases h with
  | stored h =>
    have hkey : (GatewayJoinState.parallel state).gatewayId = gatewayId := KeyedMap.key_of_get? h
    exact hkey
  | fresh _ hid _ _ => exact hid

/-- The updated state of a join that does not fire is the one stored then. -/
theorem get?_updatedState {joins : KeyedMap GatewayJoinState.gatewayId} {gatewayId : String}
    {incoming : List SequenceFlow} {state : ParallelGatewayJoinState}
    (h : JoinStart joins gatewayId incoming state) (flowId : String) :
    (joins.set (.parallel (evaluateParallelJoin flowId state).updatedState)).get? gatewayId =
      some (.parallel (evaluateParallelJoin flowId state).updatedState) :=
  KeyedMap.get?_eq_some_iff.2 ⟨KeyedMap.mem_set.2 (Or.inl rfl), gatewayId_updatedState h⟩

/-- The state a join starts from, when a token arrives, is the collector's. -/
theorem JoinHolds.start {expected opened : List String}
    {joins : KeyedMap GatewayJoinState.gatewayId} {gatewayId : String}
    {incoming : List SequenceFlow} {state : ParallelGatewayJoinState}
    (hexpected : expected = incoming.map (·.id))
    (h : JoinHolds expected opened (joins.get? gatewayId))
    (hstart : JoinStart joins gatewayId incoming state) :
    state.expectedFlows = expected ∧ ∀ f, f ∈ state.arrivedFromFlows ↔ f ∈ opened := by
  cases hstart with
  | stored hs =>
    rw [hs] at h
    exact h
  | fresh hs _ harrived hexp =>
    rw [hs] at h
    rw [show opened = [] from h, harrived, hexpected]
    exact ⟨hexp, fun f => Iff.rfl⟩

/-- A token that passes another element leaves the state of the join alone, or else an inclusive
split has filed a state of its own there. -/
theorem Exits.get?_of_ne {joins joins' : KeyedMap GatewayJoinState.gatewayId} {t : Token}
    {e : BpmnFlowElement} {flows : List String} {gatewayId : String}
    (h : Exits d joins t e flows joins') (hne : e.id ≠ gatewayId) :
    joins'.get? gatewayId = joins.get? gatewayId ∨
      ∃ s, joins'.get? gatewayId = some (.inclusive s) := by
  cases h with
  | parallelFires g _ _ _ _ => exact Or.inl (KeyedMap.get?_erase_of_ne _ hne)
  | parallelWaits g _ _ hstate _ =>
    refine Or.inl (KeyedMap.get?_set_of_ne _ ?_)
    rw [show GatewayJoinState.gatewayId (.parallel _) = _ from gatewayId_updatedState hstate]
    exact hne
  | @inclusiveSplitJoin _ _ _ _ _ _ _ _ _ state _ _ _ =>
    by_cases hjoin : state.gatewayId = gatewayId
    · refine Or.inr ⟨state, KeyedMap.get?_eq_some_iff.2 ⟨KeyedMap.mem_set.2 (Or.inl rfl), hjoin⟩⟩
    · exact Or.inl (KeyedMap.get?_set_of_ne _ hjoin)
  | inclusiveFires g _ _ _ _ => exact Or.inl (KeyedMap.get?_erase_of_ne _ hne)
  | @inclusiveWaits g _ _ _ _ _ state hs _ =>
    refine Or.inl (KeyedMap.get?_set_of_ne _ ?_)
    have hkey : (GatewayJoinState.inclusive state).gatewayId = g.id := KeyedMap.key_of_get? hs
    exact fun h => hne (Eq.trans hkey.symm h)
  | _ => exact Or.inl rfl

variable {first second : SequenceFlow} {rest : List SequenceFlow}

theorem arrivalFlow_eq (hin : d.getIncomingFlows g.id = first :: second :: rest) {t : Token}
    (ht : t.elementId = g.id) : arrivalFlow d t = t.arrivedViaFlowId.getD first.id := by
  simp [arrivalFlow, ProcessDefinition.incomingIds, ht, hin]

/-- The join fires when the arrival completes what is open. -/
theorem fires_iff_completes (hin : d.getIncomingFlows g.id = first :: second :: rest) {t : Token}
    (ht : t.elementId = g.id) {opened : List String}
    {joins : KeyedMap GatewayJoinState.gatewayId} {state : ParallelGatewayJoinState}
    (h : JoinHolds (d.incomingIds g.id) opened (joins.get? g.id))
    (hstart : JoinStart joins g.id (d.getIncomingFlows g.id) state) :
    (evaluateParallelJoin (t.arrivedViaFlowId.getD first.id) state).fires = true ↔
      Completes (d.incomingIds g.id) opened (arrivalFlow d t) := by
  obtain ⟨hexpected, harrived⟩ := h.start rfl hstart
  rw [evaluateParallelJoin_fires_iff, hexpected, arrivalFlow_eq hin ht]
  exact completes_congr harrived _

/-- Over a whole history the stored state of the join is the collector of its arrivals. -/
theorem Trace.joinHolds (hg : d.getElement g.id = .ok (.gateway g)) (htype : g.type = .parallel)
    (hin : d.getIncomingFlows g.id = first :: second :: rest) {steps : List Step}
    {ctx : ExecutionContext} (h : Trace d steps ctx) :
    JoinHolds (d.incomingIds g.id) (openFlows d g.id steps) (ctx.pool.joins.get? g.id) := by
  refine (h.invariant (I := fun steps P => JoinHolds (d.incomingIds g.id) (openFlows d g.id steps)
    (P.joins.get? g.id)) (C := fun _ => True) (fun _ => rfl) (fun _ _ _ _ _ _ hI => hI) ?_ ?_
    fun _ _ => trivial).2
  · intro steps before command after _ _ _ hI hcmd
    rw [openFlows_concat_command, hcmd.joins]
    exact hI
  · rintro steps before t after - - hI ⟨Q, origins, hturn, hmade⟩
    rw [hmade.joins]
    replace hI : JoinHolds _ _ (before.pool.joins.get? g.id) := hI
    by_cases ht : t.elementId = g.id
    · rw [openFlows_concat_process d steps before after ht]
      obtain ⟨state, hstart, hcases⟩ :=
        hturn.parallelJoin hg htype hin (show t.erase.elementId = g.id from ht)
      have hiff := fires_iff_completes hin ht hI hstart
      obtain ⟨hexpected, harrived⟩ := hI.start rfl hstart
      rcases hcases with ⟨hfires, rfl, -⟩ | ⟨hfires, rfl, -⟩
      · rw [collect, if_pos (hiff.1 hfires)]
        exact Eq.mpr (congrArg _ (KeyedMap.get?_erase_self _ _)) rfl
      · have hno : ¬ Completes (d.incomingIds g.id) (openFlows d g.id steps) (arrivalFlow d t) :=
          fun hc => Bool.eq_false_iff.1 hfires (hiff.2 hc)
        rw [collect, if_neg hno]
        refine Eq.mpr (congrArg _ (get?_updatedState hstart _)) ⟨hexpected, fun f => ?_⟩
        rw [Token.arrivedViaFlowId_erase, mem_updatedState, List.mem_cons, harrived,
          arrivalFlow_eq hin ht]
    · rw [openFlows_concat_of_ne d steps before after ht]
      rcases hturn.joins_cases with hjoins | ⟨e, flows, joins, he, hexit, rfl, -⟩
      · rw [hjoins]
        exact hI
      · have hne : e.id ≠ g.id := by
          rw [ProcessDefinition.getElement_id he]
          exact ht
        rcases hexit.get?_of_ne hne with hsame | ⟨s, hs⟩
        · rw [show ({ before.pool.finish t.erase with joins } : Pool).joins.get? g.id =
            _ from hsame]
          exact hI
        · rw [show ({ before.pool.finish t.erase with joins } : Pool).joins.get? g.id = _ from hs]
          trivial

/-! ## The law of the join -/

/-- The token is completed and exactly one token is moved onto each of the flows; apart from the
join states nothing else changes. -/
def MovedOnto (d : ProcessDefinition) (t : Token) (flows : List String) (P P' : Pool) : Prop :=
  Spawned (Made d) (onFlows t flows) { P.finish t with joins := P'.joins } P'

/-- The join fires: one token on each outgoing flow, and nothing arrived any more. -/
def Step.JoinFires (d : ProcessDefinition) (gatewayId : String) (st : Step) (t : Token) : Prop :=
  MovedOnto d t.erase ((d.getOutgoingFlows gatewayId).map (·.id)) st.before.pool st.after.pool ∧
    st.after.getJoinState gatewayId = none

/-- The join goes on waiting: the token is consumed, and no token is made. -/
def Step.JoinWaits (d : ProcessDefinition) (st : Step) (t : Token) : Prop :=
  MovedOnto d t.erase [] st.before.pool st.after.pool

/-- The step is the arrival of a token at the element. -/
def Step.ArrivalAt (st : Step) (elementId : String) (t : Token) : Prop :=
  st.action = .process t ∧ t.elementId = elementId

/-- At every arrival the join fires if the arrival completes the set of the flows that have arrived,
and waits if not. -/
theorem Trace.joinFires (hg : d.getElement g.id = .ok (.gateway g)) (htype : g.type = .parallel)
    (hin : d.getIncomingFlows g.id = first :: second :: rest) {steps : List Step}
    {ctx : ExecutionContext} (h : Trace d steps ctx) {earlier later : List Step} {st : Step}
    (hsteps : steps = earlier ++ st :: later) {t : Token} (harrival : st.ArrivalAt g.id t) :
    (Completes (d.incomingIds g.id) (openFlows d g.id earlier) (arrivalFlow d t) ∧
      st.JoinFires d g.id t) ∨
    (¬ Completes (d.incomingIds g.id) (openFlows d g.id earlier) (arrivalFlow d t) ∧
      st.JoinWaits d t) := by
  obtain ⟨hact, ht⟩ := harrival
  obtain ⟨ctx0, htrace0, hpool, -, Q, origins, hturn, hmade⟩ := h.split_process hsteps hact
  have hjoin := htrace0.joinHolds hg htype hin
  rw [hpool] at hjoin
  obtain ⟨state, hstart, hcases⟩ :=
    hturn.parallelJoin hg htype hin (show t.erase.elementId = g.id from ht)
  have hiff := fires_iff_completes hin ht hjoin hstart
  have hjoins := hmade.joins
  rcases hcases with ⟨hfires, rfl, rfl⟩ | ⟨hfires, rfl, rfl⟩
  · refine Or.inl ⟨hiff.1 hfires, ?_, ?_⟩
    · rw [MovedOnto, hjoins]
      exact hmade
    · show st.after.pool.joins.get? g.id = none
      rw [hjoins]
      exact KeyedMap.get?_erase_self _ _
  · refine Or.inr ⟨fun hc => Bool.eq_false_iff.1 hfires (hiff.2 hc), ?_⟩
    rw [Step.JoinWaits, MovedOnto, hjoins]
    exact hmade

theorem openFlows_append (d : ProcessDefinition) (elementId : String) (steps more : List Step) :
    openFlows d elementId (steps ++ more) =
      openAfter (d.incomingIds elementId)
        (arrivals d elementId steps ++ arrivals d elementId more) := by
  rw [openFlows, arrivals, List.filterMap_append]
  rfl

theorem arrivals_append_cons (d : ProcessDefinition) {elementId : String} (before after : List Step)
    {st : Step} {t : Token} (h : st.ArrivalAt elementId t) :
    arrivals d elementId (before ++ st :: after) =
      arrivals d elementId before ++ arrivalFlow d t :: arrivals d elementId after := by
  obtain ⟨hact, ht⟩ := h
  simp [arrivals, List.filterMap_append, hact, ht]

end Join

/-- A parallel join over a run: it fires exactly at the arrivals that complete the set of its
incoming flows since it fired last; every token is consumed once; and a round of arrivals, on every
flow once, makes it fire once, at the last of them. -/
theorem parallelJoin_law {d : ProcessDefinition} {g : GatewayElement}
    (hg : d.getElement g.id = .ok (.gateway g)) (htype : g.type = .parallel)
    (hin : 2 ≤ (d.getIncomingFlows g.id).length) {steps : List Step} {state : EngineState}
    {nextId : Nat} (run : Run d steps state nextId) :
    (∀ earlier st later t, steps = earlier ++ st :: later → st.ArrivalAt g.id t →
      (Completes (d.incomingIds g.id) (openFlows d g.id earlier) (arrivalFlow d t) ∧
        st.JoinFires d g.id t) ∨
      (¬ Completes (d.incomingIds g.id) (openFlows d g.id earlier) (arrivalFlow d t) ∧
        st.JoinWaits d t)) ∧
    (∀ t ∈ state.tokens, t.elementId = g.id → (processedIds steps).count t.id = 1) ∧
    ∀ earlier round later, steps = earlier ++ (round ++ later) → openFlows d g.id earlier = [] →
      (arrivals d g.id round).Nodup → (∀ f, f ∈ arrivals d g.id round ↔ f ∈ d.incomingIds g.id) →
      openFlows d g.id (earlier ++ round) = [] ∧
      ∀ before st after t, round = before ++ st :: after → st.ArrivalAt g.id t →
        (arrivals d g.id after = [] ∧ st.JoinFires d g.id t) ∨
        (arrivals d g.id after ≠ [] ∧ st.JoinWaits d t) := by
  obtain ⟨first, second, rest, hflows⟩ : ∃ first second rest,
      d.getIncomingFlows g.id = first :: second :: rest := by
    match hf : d.getIncomingFlows g.id with
    | [] | [_] => simp [hf] at hin
    | first :: second :: rest => exact ⟨first, second, rest, rfl⟩
  obtain ⟨ctx, inst, htrace, -, -, -, -⟩ := run.trace
  refine ⟨?_, fun t ht _ => run.count_processedIds ht, ?_⟩
  · intro earlier st later t hsteps harrival
    exact htrace.joinFires hg htype hflows hsteps harrival
  · intro earlier round later hsteps hopen hnodup hround
    refine ⟨?_, ?_⟩
    · rw [openFlows_append]
      exact openAfter_round hopen hnodup hround
    · rintro before st after t rfl harrival
      have hiff := completes_round_iff hopen hnodup hround
        (arrivals_append_cons d before after harrival)
      rw [← openFlows_append] at hiff
      have hsplit : steps = (earlier ++ before) ++ st :: (after ++ later) := by
        rw [hsteps]
        simp
      rcases htrace.joinFires hg htype hflows hsplit harrival with ⟨hc, hfires⟩ | ⟨hc, hwaits⟩
      · exact Or.inl ⟨hiff.1 hc, hfires⟩
      · exact Or.inr ⟨fun h => hc (hiff.2 h), hwaits⟩

namespace Diagram

def twoBranchFlows : List SequenceFlow :=
  [.between "toSplit" "start" "split", .between "toA" "split" "a", .between "toB" "split" "b",
    .between "fromA" "a" "join", .between "fromB" "b" "join", .between "toEnd" "join" "end"]

/-- Two user tasks between a parallel split and a parallel join. -/
def twoBranches : ProcessDefinition :=
  definition twoBranchFlows
    [start twoBranchFlows "start", .gateway (gateway twoBranchFlows "split" .parallel),
      userTask twoBranchFlows "a", userTask twoBranchFlows "b",
      .gateway (gateway twoBranchFlows "join" .parallel), finish twoBranchFlows "end" .none]

/-- The token of the step arrives at the join, and completes the flows. -/
def arrives (r : Replay) (i : Nat) : Bool :=
  match r.steps[i]? with
  | some ⟨_, .process t, _⟩ => t.elementId = "join" ∧
      Completes (twoBranches.incomingIds "join") (openFlows twoBranches "join" (r.steps.take i))
        (arrivalFlow twoBranches t)
  | _ => false

end Diagram

open Diagram in
/-- The second task is completed first, and the join fires when the first one is. -/
theorem parallelJoin_law_twoBranches : ∃ r : Replay, Run twoBranches r.steps r.state r.nextId ∧
    arrivals twoBranches "join" r.steps = ["fromB", "fromA"] ∧
    ∃ st ∈ r.steps, ∃ t, st.JoinFires twoBranches "join" t := by
  obtain ⟨r, hrun, htest⟩ := exists_run_of_replay twoBranches always 10 none
    [.completeUserTask 5 "" none, .completeUserTask 4 "" none]
    (fun r => arrivals twoBranches "join" r.steps = ["fromB", "fromA"] ∧ arrives r 8)
    (by decide +kernel)
  simp only [Bool.decide_and, Bool.and_eq_true, decide_eq_true_eq] at htest
  obtain ⟨harrivals, hstep⟩ := htest
  refine ⟨r, hrun, harrivals, ?_⟩
  simp only [arrives] at hstep
  split at hstep
  case h_1 before t after hget =>
    simp only [decide_eq_true_eq] at hstep
    obtain ⟨hlt, hst⟩ := List.getElem?_eq_some_iff.1 hget
    have hsplit : r.steps = r.steps.take 8 ++ ⟨before, .process t, after⟩ :: r.steps.drop 9 := by
      rw [← hst, ← List.drop_eq_getElem_cons hlt, List.take_append_drop]
    have hlaw := (parallelJoin_law (g := gateway twoBranchFlows "join" .parallel) rfl rfl
      (by decide) hrun).1 _ _ _ t hsplit ⟨rfl, hstep.1⟩
    rcases hlaw with ⟨-, hfires⟩ | ⟨hnot, -⟩
    · exact ⟨_, List.mem_of_getElem? hget, t, hfires⟩
    · exact absurd hstep.2 hnot
  case h_2 => simp at hstep

end NexusWorkflow
