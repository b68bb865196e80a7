import NexusWorkflow.Game.Resumption
import NexusWorkflow.Proof.OneAdvance
import NexusWorkflow.Proof.Subscriptions
import NexusWorkflow.Proof.Suspension

/-!
# Delivery of messages

`POST /messages` should go to one waiting token, of an instance that has the correlation value.  It
looks for a subscription and takes the first one, but the command that it runs on the instance goes
to every token of the instance that waits for the message; and no subscription ever gets a
correlation value.
-/

namespace NexusWorkflow

open ExecutionContext (Siblings ResumesOne)

/-! ## What a request should do -/

/-- The token waits for the message, and its instance has the correlation value, if one is given. -/
structure Store.AwaitsMessage (store : Store) (name : String) (correlationValue : Option String)
    (t : Token) : Prop where
  mem : t ∈ store.tokens.values
  awaits : t.awaitsMessage name = true
  correlated : ∀ value ∈ correlationValue, ∃ row ∈ store.instances.values,
    row.data.id = t.instanceId ∧ row.data.correlationKey = some value

/-- One token has been resumed; all other tokens are as they were, and the variables are merged into
its scope alone. -/
structure ExecutionContext.ResumesOnly (ctx ctx' : ExecutionContext) (vars : Option Variables)
    (t : Token) : Prop where
  completed : ∃ x, ctx'.tokenMap.get? t.id = some x ∧ x.status = .completed
  others : ∀ id u, id ≠ t.id → ctx.tokenMap.get? id = some u → ctx'.tokenMap.get? id = some u
  merged : ∀ scope, ctx.scopeMap.get? t.scopeId = some scope →
    ctx'.scopeMap.get? t.scopeId = some { scope with vars := scope.vars.merge (vars.getD ∅) }
  scopes : ∀ id, id ≠ t.scopeId → ctx'.scopeMap.get? id = ctx.scopeMap.get? id

/-- The cycle of `POST /messages`. -/
def messageCycle (s : Surroundings) (name : String) (vars : Option Variables) : Cycle :=
  (s.circumstances 0).cycle closesNothing (fun _ => true) (.deliverMessage name vars)
    (EngineCommand.deliverMessage_goesOn name vars)

/-- The message has been delivered to this token alone: its instance is saved as it runs on from
there, and the tokens of all other instances are as they were. -/
structure Delivers (s : Surroundings) (store : Store) (name : String) (vars : Option Variables)
    (t : Token) (store' : Store) : Prop where
  cycle : ∃ d state version result ops mid,
    (messageCycle s name vars).Done s.definitions t.instanceId store d state version result ops
    store' ∧
      handleDeliverMessage d (ExecutionContext.create (some state) (s.circumstances 0).options) name
        vars =
        .ok mid ∧
      (ExecutionContext.create (some state) (s.circumstances 0).options).ResumesOnly mid vars t
  others : ∀ x : Token, x.instanceId ≠ t.instanceId →
    (x ∈ store'.tokens.values ↔ x ∈ store.tokens.values)

/-- What `POST /messages` should make of the store. -/
structure OneToOne (s : Surroundings) (store : Store) (name : String)
    (correlationValue : Option String) (vars : Option Variables) (answer : Reply × Store) :
    Prop where
  delivered : (∃ t, store.AwaitsMessage name correlationValue t) → answer.1.status = 200 ∧
    ∃ t, store.AwaitsMessage name correlationValue t ∧ Delivers s store name vars t answer.2
  refused : (¬ ∃ t, store.AwaitsMessage name correlationValue t) →
    answer.1.status = 404 ∧ answer.2 = store

/-- The instance takes the message: it is there with its definition, and the engine runs on without
an error. -/
def AcceptsMessage (s : Surroundings) (store : Store) (name : String) (vars : Option Variables)
    (instanceId : Nat) : Prop :=
  ∃ state version d result,
    (loadEngineState (s.circumstances 0).order instanceId).alone store = some (state, version) ∧
    s.definitions state.inst.definitionId state.inst.definitionVersion = some d ∧
    execute d (s.circumstances 0).fuel (.deliverMessage name vars) (some state)
      (s.circumstances 0).options = .ok result

/-- Of its instance, this waiting token is the only one that a delivery touches: no other one waits
for the message, or has the same parent. -/
def Store.Alone (store : Store) (name : String) (t : Token) : Prop :=
  ∀ u ∈ store.tokens.values, u.instanceId = t.instanceId → u.id ≠ t.id →
    u.awaitsMessage name = false ∧ ¬ Siblings t u

/-- What the request needs to find.  The first subscription is one of an instance that takes the
message; there is a token in it that waits for the message, and a delivery touches that one alone.
If there is no subscription, then no token waits. -/
def FindsOne (s : Surroundings) (store : Store) (name : String) (correlationValue : Option String)
    (vars : Option Variables) : Prop :=
  match s.subscriptions (store.findSubscriptions
      { type := .message, messageName := some name, correlationValue }) with
  | [] => ¬ ∃ t, store.AwaitsMessage name correlationValue t
  | sub :: _ => AcceptsMessage s store name vars sub.instanceId ∧
      ∃ t, store.AwaitsMessage name correlationValue t ∧ t.instanceId = sub.instanceId ∧
        store.Alone name t

/-! ## Handlers -/

variable {d : ProcessDefinition} {state : EngineState} {options : ExecuteOptions} {nextId : Nat}
  {name : String} {vars : Option Variables} {mid : ExecutionContext} {t : Token}

/-- The only element of a list that satisfies `p`. -/
theorem filter_eq_singleton {α β : Type} {key : α → β} {l : List α} {p : α → Bool} {a : α}
    (hnd : (l.map key).Nodup) (ha : a ∈ l) (hp : p a = true)
    (hother : ∀ b ∈ l, key b ≠ key a → p b = false) : l.filter p = [a] := by
  induction l with
  | nil => cases ha
  | cons b l ih =>
    obtain ⟨hb, hnd⟩ := List.nodup_cons.1 hnd
    have hrest := fun x hx => hother x (List.mem_cons_of_mem b hx)
    rcases List.mem_cons.1 ha with rfl | ha
    · have hnone : l.filter p = [] := List.filter_eq_nil_iff.2 fun x hx => by
        rw [hrest x hx fun hkey => hb (List.mem_map.2 ⟨x, hx, hkey⟩)]
        simp
      rw [List.filter_cons_of_pos hp, hnone]
    · have hne : key b ≠ key a := fun hkey => hb (List.mem_map.2 ⟨a, ha, hkey.symm⟩)
      rw [List.filter_cons_of_neg (by simp [hother b List.mem_cons_self hne])]
      exact ih hnd ha hrest

theorem counted_of_resting (h : state.Resting nextId) (hn : nextId ≤ options.firstId) :
    (ExecutionContext.create (some state) options).Counted := by
  intro t ht
  rw [h.tokenMap] at ht
  exact (h.known t ht).trans_le hn

/-- The tokens of the state, as the engine finds them. -/
theorem get?_create (h : state.Resting nextId) (ht : t ∈ state.tokens) :
    (ExecutionContext.create (some state) options).tokenMap.get? t.id = some t := by
  rw [← h.tokenMap options] at ht
  exact KeyedMap.get?_of_mem ht

theorem mem_of_get?_create (h : state.Resting nextId) {id : Nat}
    (ht : (ExecutionContext.create (some state) options).tokenMap.get? id = some t) :
    t ∈ state.tokens ∧ t.id = id := by
  obtain ⟨hmem, hid⟩ := KeyedMap.get?_eq_some_iff.1 ht
  rw [h.tokenMap] at hmem
  exact ⟨hmem, hid⟩

/-- The delivery to the only token that waits for the message. -/
theorem handleDeliverMessage_resumesOne (hrest : state.Resting nextId)
    (hn : nextId ≤ options.firstId) (ht : t ∈ state.tokens) (hawaits : t.awaitsMessage name = true)
    (honly : ∀ u ∈ state.tokens, u.id ≠ t.id → u.awaitsMessage name = false)
    (h : handleDeliverMessage d (ExecutionContext.create (some state) options) name vars =
    .ok mid) :
    ResumesOne (ExecutionContext.create (some state) options) mid vars t := by
  have htargets : (ExecutionContext.create (some state) options).getAllTokens.filter
      (Token.awaitsMessage name) = [t] := by
    rw [ExecutionContext.getAllTokens, hrest.tokenMap]
    exact filter_eq_singleton hrest.tokenIds ht hawaits honly
  have h : ((ExecutionContext.create (some state) options).getAllTokens.filter
      (Token.awaitsMessage name)).foldlM (resumeTarget d vars) _ = .ok mid := h
  rw [htargets] at h
  obtain ⟨one, hone, h⟩ := Except.foldlM_cons_eq_ok_iff.1 h
  rw [List.foldlM_nil, Except.pure_eq_ok_iff] at h
  subst h
  exact ExecutionContext.resumeTarget_resumesOne (counted_of_resting hrest hn)
    (get?_create hrest ht)
    (Token.awaitsMessage_waiting hawaits) hone

/-- No token waits for the message when it has been delivered. -/
theorem handleDeliverMessage_ceased (hrest : state.Resting nextId) (hn : nextId ≤ options.firstId)
    (ht : t ∈ state.tokens) (hawaits : t.awaitsMessage name = true)
    (h : handleDeliverMessage d (ExecutionContext.create (some state) options) name vars =
    .ok mid) :
    mid.tokenMap.get? t.id ≠ some t := by
  intro hget
  have hcoh := hrest.coherent hn
  have hcommanded : Commanded d (ExecutionContext.create (some state) options).pool
      (.deliverMessage name vars) mid.pool := handleCommand_commanded hcoh.numbered h
  cases hcommanded with
  | deed hdeed _ => cases hdeed
  | deliverMessage _ _ hresumes =>
    have hpool : t.erase ∈ (ExecutionContext.create (some state) options).pool.tokens := by
      refine ExecutionContext.mem_pool _ ?_
      rw [hrest.tokenMap]
      exact ht
    have hceased := hresumes.ceased hcoh (w := t.erase) (List.mem_filter.2 ⟨hpool, hawaits⟩)
    exact hceased t.erase (mid.mem_pool (KeyedMap.mem_of_get? hget)) rfl
      (Token.awaitsMessage_waiting hawaits)

/-- The delivery touches one token alone exactly if no other one waits for the message or has the
same parent. -/
theorem resumesOnly_iff (hrest : state.Resting nextId) (hn : nextId ≤ options.firstId)
    (ht : t ∈ state.tokens) (hawaits : t.awaitsMessage name = true)
    (h : handleDeliverMessage d (ExecutionContext.create (some state) options) name vars =
    .ok mid) :
    (ExecutionContext.create (some state) options).ResumesOnly mid vars t ↔
      ∀ u ∈ state.tokens, u.id ≠ t.id → u.awaitsMessage name = false ∧ ¬ Siblings t u := by
  constructor
  · intro honly
    have hnone : ∀ u ∈ state.tokens, u.id ≠ t.id → u.awaitsMessage name = false := by
      intro u hu hne
      by_contra hother
      exact handleDeliverMessage_ceased hrest hn hu (by simpa using hother) h
        (honly.others u.id u hne (get?_create hrest hu))
    have hone := handleDeliverMessage_resumesOne hrest hn ht hawaits hnone h
    refine fun u hu hne => ⟨hnone u hu hne, fun hsiblings => ?_⟩
    obtain ⟨x, hx, hcancelled⟩ := hone.cancelled u.id u hne (get?_create hrest hu) hsiblings
    rw [honly.others u.id u hne (get?_create hrest hu)] at hx
    obtain rfl := Option.some.inj hx
    rw [hsiblings.1] at hcancelled
    cases hcancelled
  · intro halone
    have hone := handleDeliverMessage_resumesOne hrest hn ht hawaits
      (fun u hu hne => (halone u hu hne).1) h
    refine ⟨hone.completed, fun id u hne hu => ?_, hone.merged, hone.scopes⟩
    obtain ⟨hmem, hid⟩ := mem_of_get?_create hrest hu
    exact hone.others id u hne hu (halone u hmem (hid ▸ hne)).2

/-! ## Requests -/

variable {s : Surroundings} {store store' : Store} {correlationValue : Option String}

theorem saved_of_answer {outcome : CycleOutcome} {missing denied : Nat} (hmissing : missing ≠ 200)
    (hdenied : denied ≠ 200) (h : (outcome.answer missing denied store).1.status = 200) :
    ∃ result, outcome = .saved result (outcome.answer missing denied store).2 := by
  cases outcome with
  | notFound => exact absurd h hmissing
  | notAdmitted => exact absurd h hdenied
  | noDefinition => cases h
  | failed e => cases e <;> cases h
  | refused e => cases e <;> cases h
  | saved result store' => exact ⟨result, rfl⟩

/-- What a delivery does to the tokens of a store, by the tokens of the instance that are there. -/
theorem delivers_iff {version : Nat} {result : EngineResult} {ops : List StoreOperation}
    (hsound : store.Sound (s.circumstances 0).options.firstId) (hmem : t ∈ store.tokens.values)
    (hawaits : t.awaitsMessage name = true)
    (h : (messageCycle s name vars).Done s.definitions t.instanceId store d state version result ops
      store') : Delivers s store name vars t store' ↔ store.Alone name t := by
  obtain ⟨⟨row, -, hid, hstate⟩, hcont⟩ := h.continued hsound (le_refl _)
  have hrest : state.Resting (s.circumstances 0).options.firstId := by
    rw [hstate]
    exact hsound.loaded _ _
  have hloaded : ∀ u : Token, u ∈ state.tokens ↔
      ∃ x ∈ store.tokens.values, x.instanceId = t.instanceId ∧ reviveToken x = u := by
    intro u
    rw [hstate, mem_loaded]
    exact exists_congr fun x => and_congr_right fun _ => by rw [← hid]; rfl
  have hthere : reviveToken t ∈ state.tokens := (hloaded _).2 ⟨t, hmem, rfl, rfl⟩
  obtain ⟨mid, hmid, -⟩ := Except.bind_eq_ok_iff.1 h.executes
  have hmid : handleDeliverMessage d
      (ExecutionContext.create (some state) (s.circumstances 0).options)
      name vars = .ok mid := hmid
  have hiff := resumesOnly_iff (t := reviveToken t) hrest (le_refl _) hthere hawaits hmid
  have halone : store.Alone name t ↔ ∀ u ∈ state.tokens, u.id ≠ t.id →
      u.awaitsMessage name = false ∧ ¬ Siblings (reviveToken t) u := by
    constructor
    · intro halone u hu hne
      obtain ⟨x, hx, hinst, rfl⟩ := (hloaded u).1 hu
      exact halone x hx hinst hne
    · intro hall u hu hinst hne
      exact hall (reviveToken u) ((hloaded _).2 ⟨u, hu, hinst, rfl⟩) hne
  rw [halone]
  constructor
  · intro hdelivers
    obtain ⟨d', state', version', result', ops', mid', hdone, hmid', honly⟩ := hdelivers.cycle
    obtain ⟨rfl, rfl⟩ : state' = state ∧ version' = version := by
      have heq := hdone.loads.symm.trans h.loads
      simpa using heq
    obtain rfl : d' = d := Option.some.inj (hdone.finds.symm.trans h.finds)
    obtain rfl : mid' = mid := Except.ok.inj (hmid'.symm.trans hmid)
    exact hiff.1 ⟨honly.completed, honly.others, honly.merged, honly.scopes⟩
  · intro hall
    have honly := hiff.2 hall
    refine ⟨⟨d, state, version, result, ops, mid, h, hmid, honly.completed, honly.others,
      honly.merged,
      honly.scopes⟩, fun x hne => ?_⟩
    have hnew : result.newState.inst.id = t.instanceId := by
      rw [hcont.instId, hstate]
      exact hid
    rw [(h.replaced hsound (le_refl _)).tokens x, hnew]
    constructor
    · rintro (hx | ⟨hx, -⟩)
      · exact absurd ((hcont.resting.tokens x hx).trans hnew) hne
      · exact hx
    · exact fun hx => .inr ⟨hx, hne⟩

/-- A cycle changes the row of one instance. -/
theorem Cycle.Done.instance_unique {c c' : Cycle}
    {definitions : String → Nat → Option ProcessDefinition} {i i' : Nat} {d' : ProcessDefinition}
    {state' : EngineState} {version version' : Nat}
    {result result' : EngineResult} {ops ops' : List StoreOperation}
    (h : c.Done definitions i store d state version result ops store')
    (h' : c'.Done definitions i' store d' state' version' result' ops' store') : i = i' := by
  obtain ⟨row, hrow, hid, -, hnew, hset⟩ := h.rewrites
  obtain ⟨row', hrow', hid', -, hnew', hset'⟩ := h'.rewrites
  by_contra hne
  have hget : store'.instances.get? i = some row := by
    have hkeep : (store.instances.set ⟨result'.newState.inst, row'.version + 1⟩).get? i =
        store.instances.get? i :=
      KeyedMap.get?_set_of_ne _ fun heq => hne (heq.symm.trans hnew')
    rw [hset', hkeep, ← hid]
    exact KeyedMap.get?_of_mem hrow
  have hget' : store'.instances.get? i = some ⟨result.newState.inst, row.version + 1⟩ := by
    rw [hset, ← hnew]
    exact KeyedMap.get?_set_self _ _
  have heq := congrArg InstanceRow.version (Option.some.inj (hget.symm.trans hget'))
  simp at heq

/-- `POST /messages` with new ids does what it should exactly if it finds what it needs. -/
theorem oneToOne_iff_findsOne (hsound : store.Sound (s.circumstances 0).options.firstId)
    (htasks : ∀ task ∈ store.userTasks.values, task.id < (s.circumstances 0).firstTaskId) :
    OneToOne s store name correlationValue vars (postMessages s store name correlationValue vars) ↔
      FindsOne s store name correlationValue vars := by
  unfold FindsOne postMessages
  cases s.subscriptions (store.findSubscriptions
      { type := .message, messageName := some name, correlationValue }) with
  | nil =>
    constructor
    · intro h hex
      have hstatus := (h.delivered hex).1
      cases hstatus
    · exact fun hnone => ⟨fun hex => absurd hex hnone, fun _ => ⟨rfl, rfl⟩⟩
  | cons sub subs =>
    change OneToOne s store name correlationValue vars
      (((messageCycle s name vars).attempt s.definitions sub.instanceId store).answer 500 500
        store) ↔ _
    constructor
    · intro h
      have hex : ∃ t, store.AwaitsMessage name correlationValue t := by
        by_contra hnone
        have hstatus := (h.refused hnone).1
        generalize (messageCycle s name vars).attempt s.definitions sub.instanceId store = outcome
          at hstatus
        cases outcome with
        | failed e => cases e <;> cases hstatus
        | refused e => cases e <;> cases hstatus
        | _ => cases hstatus
      obtain ⟨hstatus, t, hawaits, hdelivers⟩ := h.delivered hex
      obtain ⟨result, hsaved⟩ := saved_of_answer (by decide) (by decide) hstatus
      obtain ⟨d, state, version, ops, hdone⟩ := Cycle.done_of_attempt hsaved
      refine ⟨⟨state, version, d, result, hdone.loads, hdone.finds, hdone.executes⟩, t, hawaits, ?_⟩
      obtain ⟨d', state', version', result', ops', mid, hdone', -⟩ := hdelivers.cycle
      have hinst := hdone'.instance_unique hdone
      exact ⟨hinst, (delivers_iff hsound hawaits.mem hawaits.awaits hdone').1 hdelivers⟩
    · rintro ⟨⟨state, version, d, result, hloads, hfinds, hexecutes⟩, t, hawaits, hinst, halone⟩
      obtain ⟨ops, store', hdone⟩ :=
        Cycle.done_of_executes (c := messageCycle s name vars) rfl hloads rfl
        hfinds hexecutes htasks
      rw [hdone.attempt_eq]
      rw [← hinst] at hdone
      exact ⟨fun _ => ⟨rfl, t, hawaits,
        (delivers_iff hsound hawaits.mem hawaits.awaits hdone).2 halone⟩,
        fun hnone => absurd ⟨t, hawaits⟩ hnone⟩

/-! ## Correlation values -/

/-- No subscription has a correlation value. -/
def Store.Uncorrelated (store : Store) : Prop :=
  ∀ sub ∈ store.subscriptions.values, sub.correlationValue = none

/-- The operation writes no correlation value. -/
def StoreOperation.Uncorrelated (op : StoreOperation) : Prop :=
  ∀ sub, op = .saveSubscription sub → sub.correlationValue = none

theorem StoreOperation.Uncorrelated.of_table {op : StoreOperation} (h : op.table ≠ .subscriptions) :
    op.Uncorrelated := by
  rintro sub rfl
  exact absurd rfl h

theorem executeTransaction_uncorrelated {ops : List StoreOperation}
    (hops : ∀ op ∈ ops, op.Uncorrelated) (hstore : store.Uncorrelated)
    (h : store.executeTransaction ops = .ok store') : store'.Uncorrelated := by
  have htables := (executeTransaction_tables h).2.2.2.2.1
  have hloop : ∀ (ops : List StoreOperation) (m : KeyedMap EventSubscription.tokenId),
      (∀ op ∈ ops, op.Uncorrelated) → (∀ sub ∈ m.values, sub.correlationValue = none) →
      ∀ sub ∈ (ops.foldl StoreOperation.writeSubscriptions m).values, sub.correlationValue =
        none := by
    intro ops
    induction ops with
    | nil => exact fun _ _ hm => hm
    | cons op ops ih =>
      intro m hops hm
      refine ih _ (fun x hx => hops x (List.mem_cons_of_mem op hx)) ?_
      have hop := hops op List.mem_cons_self
      cases op with
      | saveSubscription sub =>
        intro x hx
        rcases KeyedMap.mem_set.1 hx with rfl | ⟨hx, -⟩
        · exact hop x rfl
        · exact hm x hx
      | deleteSubscription tokenId => exact fun x hx => hm x (KeyedMap.mem_erase.1 hx).1
      | _ => exact hm
  intro sub hsub
  rw [htables] at hsub
  exact hloop ops _ hops hstore sub hsub

theorem stateOps_uncorrelated {instanceOp : StoreOperation} (hinst : instanceOp.table = .instances)
    (oldState : Option EngineState) (newState : EngineState) :
    ∀ op ∈ stateOps instanceOp oldState newState, op.Uncorrelated := by
  intro op hop
  apply StoreOperation.Uncorrelated.of_table
  rcases List.mem_cons.1 hop with rfl | hop
  · simp [hinst]
  · rcases List.mem_cons.1 hop with rfl | hop
    · simp [StoreOperation.table]
    · rcases List.mem_append.1 hop with hop | hop
      · simp [scopeOps_table op hop]
      · simp [gatewayOps_table op hop]

theorem computeStoreOps_uncorrelated (isNew : Bool) (oldState : Option EngineState)
    (version : Option Nat) (newState : EngineState) :
    ∀ op ∈ computeStoreOps isNew oldState version newState, op.Uncorrelated := by
  intro op hop
  rcases List.mem_append.1 hop with hop | hop
  · exact stateOps_uncorrelated (by cases isNew <;> rfl) oldState newState op hop
  · rcases List.mem_append.1 hop with hop | hop
    · rcases List.mem_append.1 hop with hop | hop
      · obtain ⟨t, -, ht⟩ := List.mem_filterMap.1 hop
        split at ht
        · cases ht
        · obtain ⟨type, -, rfl⟩ := Option.map_eq_some_iff.1 ht
          intro sub hsub
          cases hsub
          rfl
      · obtain ⟨t, -, rfl⟩ := List.mem_map.1 hop
        exact fun sub hsub => nomatch hsub
    · refine .of_table ?_
      rw [compensationOps_table op hop]
      decide

theorem userTaskOps_uncorrelated {ops : List StoreOperation}
    (h : ∀ op ∈ ops, op.table = .userTasks) : ∀ op ∈ ops, op.Uncorrelated := fun op hop => by
  refine .of_table ?_
  rw [h op hop]
  decide

/-- What the caller of a cycle writes. -/
theorem Caller.storeOps_uncorrelated {caller : Caller} {firstTaskId version : Nat}
    {result : EngineResult} {seen : List Store} {ops : List StoreOperation}
    (h : Reading.Gives (caller.storeOps d firstTaskId state version result) seen ops) :
    ∀ op ∈ ops, op.Uncorrelated := by
  cases caller with
  | request closes =>
    obtain ⟨first, rest, closed, -, -, h⟩ := Reading.gives_bind h
    obtain ⟨rfl, -⟩ := Reading.gives_done h
    intro op hop
    rcases List.mem_append.1 hop with hop | hop
    · exact computeStoreOps_uncorrelated _ _ _ _ op hop
    · rcases List.mem_append.1 hop with hop | hop
      · exact userTaskOps_uncorrelated buildUserTaskCreationOps_table op hop
      · exact userTaskOps_uncorrelated updateUserTask_table op hop
  | worker | timer =>
    obtain ⟨rfl, -⟩ := Reading.gives_done h
    exact stateOps_uncorrelated rfl _ _

theorem Cycle.uncorrelated {definitions : String → Nat → Option ProcessDefinition} {c : Cycle}
    {instanceId : Nat} {seen : List Store} {txn : Transaction Store} (hstore : store.Uncorrelated)
    (h : Reading.Gives (c.program definitions instanceId) seen (some txn))
    (hnew : txn store = some store') : store'.Uncorrelated := by
  obtain ⟨loaded, rest, d, state, version, result, ops, -, hlands⟩ := Cycle.lands_of_gives h hnew
  exact executeTransaction_uncorrelated
    (Caller.storeOps_uncorrelated hlands.writes) hstore hlands.saves

theorem Job.uncorrelated_rewrite {taskId : Nat} {change : UserTaskRecord → UserTaskRecord}
    {seen : List Store} {txn : Transaction Store} (hstore : store.Uncorrelated)
    (h : Reading.Gives (rewriteProgram taskId change) seen (some txn))
    (hnew : txn store = some store') : store'.Uncorrelated := by
  obtain ⟨first, rest, found, -, -, h⟩ := Reading.gives_bind h
  cases found with
  | none => cases (Reading.gives_done h).1
  | some task =>
    cases (Reading.gives_done h).1
    refine executeTransaction_uncorrelated (fun op hop => ?_) hstore (eq_ok_of_txn hnew)
    rw [List.mem_singleton.1 hop]
    exact .of_table (by simp [StoreOperation.table])

/-- No job writes a correlation value. -/
theorem uncorrelated_kept {definitions : String → Nat → Option ProcessDefinition}
    {C : Store → Job → List Store → Prop} :
    Shared.Kept (Job.program definitions) C Store.Uncorrelated fun _ _ => True where
  refl _ := trivial
  trans _ _ := trivial
  commit {now new job seen txn} hnow h := by
    refine ⟨?_, trivial⟩
    have hgives := h.gives
    cases job with
    | start d vars correlationKey businessKey k =>
      have hgives : Reading.Gives (Job.startProgram d vars correlationKey businessKey k) seen
          (some txn) :=
        hgives
      unfold Job.startProgram at hgives
      split at hgives
      · cases (Reading.gives_done hgives).1
      · cases (Reading.gives_done hgives).1
        refine executeTransaction_uncorrelated (fun op hop => ?_) hnow (eq_ok_of_txn h.changes)
        rcases List.mem_append.1 hop with hop | hop
        · exact computeStoreOps_uncorrelated _ _ _ _ op hop
        · exact userTaskOps_uncorrelated buildUserTaskCreationOps_table op hop
    | claim taskId claimedBy time => exact Job.uncorrelated_rewrite hnow hgives h.changes
    | release taskId => exact Job.uncorrelated_rewrite hnow hgives h.changes
    | complete taskId completedBy vars k =>
      have hgives : Reading.Gives (Job.completeProgram definitions taskId completedBy vars k) seen
        (some txn) := hgives
      obtain ⟨first, rest, found, -, -, hgives⟩ := Reading.gives_bind hgives
      cases found with
      | none => cases (Reading.gives_done hgives).1
      | some task =>
        have hgives : Reading.Gives (if _ then _ else _) rest (some txn) := hgives
        split at hgives
        · cases (Reading.gives_done hgives).1
        · exact Cycle.uncorrelated hnow hgives h.changes
    | cancel instanceId tasks k => exact Cycle.uncorrelated hnow hgives h.changes
    | force instanceId tokenId completedBy vars tasks k =>
      exact Cycle.uncorrelated hnow hgives h.changes
    | cycle instanceId c closes => exact Cycle.uncorrelated hnow hgives h.changes

/-- A request with a correlation value finds no subscription. -/
theorem Store.Uncorrelated.findsOne_iff (h : store.Uncorrelated) {value : String} :
    FindsOne s store name (some value) vars ↔ ¬ ∃ t, store.AwaitsMessage name (some value) t := by
  have hnone : store.findSubscriptions
      { type := .message, messageName := some name, correlationValue := some value } = [] := by
    refine List.filter_eq_nil_iff.2 fun sub hsub => ?_
    simp [h sub hsub]
  have hfound := (s.perm_subscriptions (store.findSubscriptions
    { type := .message, messageName := some name, correlationValue := some value })).symm
  rw [hnone] at hfound
  unfold FindsOne
  rw [hnone, hfound.nil_eq.symm]

/-! ## The law -/

variable {ι : Type} [DecidableEq ι]

/-- In every store that jobs lead to, and for every request that gets new ids: `POST /messages`
resumes exactly one matching token and touches no other one, or answers 404 when none waits, if and
only if it finds what it needs.  With a correlation value that is so only if no token waits. -/
theorem oneToOne_iff {definitions : String → Nat → Option ProcessDefinition}
    {S : Shared ι Job Store} (hrun : Shared.Leads (Job.program definitions) newIds
    (Shared.fresh ∅) S) (hids : S.state.Below (s.circumstances 0).options.firstId)
    (htasks : ∀ task ∈ S.state.userTasks.values, task.id < (s.circumstances 0).firstTaskId) :
    (OneToOne s S.state name correlationValue vars
      (postMessages s S.state name correlationValue vars) ↔
        FindsOne s S.state name correlationValue vars) ∧
    ∀ value, correlationValue = some value →
      (OneToOne s S.state name correlationValue vars
        (postMessages s S.state name correlationValue vars) ↔
          ¬ ∃ t, S.state.AwaitsMessage name correlationValue t) := by
  have horderly := (hrun.kept newIds_kept (.fresh orderly_empty)).1.state
  obtain ⟨n, hsound⟩ := horderly.sound
  have hiff : OneToOne s S.state name correlationValue vars
      (postMessages s S.state name correlationValue vars) ↔
        FindsOne s S.state name correlationValue vars :=
    oneToOne_iff_findsOne (hsound.of_below hids) htasks
  refine ⟨hiff, ?_⟩
  rintro value rfl
  have huncorrelated := (hrun.kept uncorrelated_kept
    (.fresh fun _ hsub => absurd hsub List.not_mem_nil)).1.state
  exact hiff.trans huncorrelated.findsOne_iff

/-! ## Letters -/

open Diagram

/-- The first subscription is one of an instance that takes the message, and the token that waits
there is alone. -/
def findsOne (s : Surroundings) (store : Store) (name : String) : Bool :=
  match s.subscriptions (store.findSubscriptions { type := .message, messageName := some name })
    with
  | [] => false
  | sub :: _ =>
      (((loadEngineState (s.circumstances 0).order sub.instanceId).alone store).any
        fun (state, _) =>
        (s.definitions state.inst.definitionId state.inst.definitionVersion).any fun d =>
          (execute d (s.circumstances 0).fuel (.deliverMessage name none) (some state)
            (s.circumstances 0).options).toOption.isSome) &&
      store.tokens.values.any fun t => t.awaitsMessage name && t.instanceId = sub.instanceId &&
        store.tokens.values.all fun u => u.instanceId ≠ t.instanceId || u.id = t.id ||
          !u.awaitsMessage name && u.parentTokenId ≠ t.parentTokenId || u.status ≠ .waiting

theorem findsOne_of_findsOne {s : Surroundings} (h : findsOne s store name = true) :
    FindsOne s store name none none ∧ ∃ t, store.AwaitsMessage name none t := by
  unfold findsOne at h
  unfold FindsOne
  split at h
  · cases h
  · rename_i sub subs hfound
    obtain ⟨haccepts, htoken⟩ := Bool.and_eq_true_iff.1 h
    obtain ⟨⟨state, version⟩, hloads, haccepts⟩ := (Option.any_eq_true ..).1 haccepts
    obtain ⟨d, hfinds, hsome⟩ := (Option.any_eq_true ..).1 haccepts
    obtain ⟨result, hresult⟩ := Option.isSome_iff_exists.1 hsome
    obtain ⟨t, ht, htoken⟩ := List.any_eq_true.1 htoken
    obtain ⟨hboth, hall⟩ := Bool.and_eq_true_iff.1 htoken
    obtain ⟨hawaits, hinst⟩ := Bool.and_eq_true_iff.1 hboth
    have hwaits : store.AwaitsMessage name none t := ⟨ht, hawaits, nofun⟩
    refine ⟨⟨⟨state, version, d, result, hloads, hfinds, Except.eq_ok_of_toOption hresult⟩, t,
      hwaits,
      of_decide_eq_true hinst, fun u hu huinst hne => ?_⟩, t, hwaits⟩
    have hu := List.all_eq_true.1 hall u hu
    simp only [ne_eq, decide_not, Bool.or_eq_true, Bool.not_eq_eq_eq_not, Bool.not_true,
      decide_eq_false_iff_not, decide_eq_true_eq, huinst, not_true_eq_false, hne, false_or,
      Bool.and_eq_true] at hu
    rcases hu with ⟨hname, hparent⟩ | hnot
    · exact ⟨hname, fun hsiblings => hparent hsiblings.2.2⟩
    · refine ⟨?_, fun hsiblings => hnot hsiblings.1⟩
      simp [Token.awaitsMessage, hnot]

/-- A letter is waited for, and it comes. -/
theorem oneToOne_letter : ∃ S : Shared Bool Job Store,
    Shared.Leads (Job.program fun _ _ => some letter) newIds (Shared.fresh ∅) S ∧
    (∃ t, S.state.AwaitsMessage "letter" none t) ∧
      OneToOne (letter.surroundings 10) S.state "letter" none none
        (postMessages (letter.surroundings 10) S.state "letter" none none) := by
  have hruns : (Shared.performs (Job.program fun _ _ => some letter) Job.HasNewIds
      [.start letter none none none (circumstances 0)] ∅).any (fun store =>
        store.Below 10 && (store.userTasks.values.all fun task => task.id < 1) &&
          findsOne (letter.surroundings 10) store "letter") = true := by decide +kernel
  obtain ⟨store, hstore, hfacts⟩ := (Option.any_eq_true ..).1 hruns
  obtain ⟨hboth, hfinds⟩ := Bool.and_eq_true_iff.1 hfacts
  obtain ⟨hbelow, htasks⟩ := Bool.and_eq_true_iff.1 hboth
  have hrun : Shared.Leads (Job.program fun _ _ => some letter) newIds
      (Shared.fresh ∅ : Shared Bool Job Store)
      ⟨store, fun _ => none, [.start letter none none none (circumstances 0)]⟩ :=
    Shared.Leads.performs (fun _ _ _ _ h => h) _ .refl hstore
  obtain ⟨hfinds, hawaits⟩ := findsOne_of_findsOne hfinds
  exact ⟨_, hrun, hawaits, (oneToOne_iff (s := letter.surroundings 10) hrun
    (of_decide_eq_true hbelow)
    fun task htask => of_decide_eq_true (List.all_eq_true.1 htasks task htask)).1.2 hfinds⟩

def lettersFlows : List SequenceFlow :=
  [.between "toSplit" "start" "split", .between "toFirst" "split" "first",
    .between "toSecond" "split" "second", .between "firstOut" "first" "end",
    .between "secondOut" "second" "end"]

/-- The same letter is waited for on two branches. -/
def letters : ProcessDefinition :=
  definition lettersFlows
    [start lettersFlows "start", .gateway (gateway lettersFlows "split" .parallel),
      catchEvent lettersFlows "first" { type := .message, messageName := some "letter" },
      catchEvent lettersFlows "second" { type := .message, messageName := some "letter" },
      finish lettersFlows "end" .none]

/-- Two tokens wait for the letter, and one request resumes both of them. -/
theorem not_oneToOne_letters : ∃ S : Shared Bool Job Store,
    Shared.Leads (Job.program fun _ _ => some letters) newIds (Shared.fresh ∅) S ∧
    (∃ t, S.state.AwaitsMessage "letter" none t) ∧
    ¬ OneToOne (letters.surroundings 10) S.state "letter" none none
      (postMessages (letters.surroundings 10) S.state "letter" none none) := by
  have hruns : (Shared.performs (Job.program fun _ _ => some letters) Job.HasNewIds
      [.start letters none none none (circumstances 0)] ∅).any (fun store =>
        store.Below 10 && (store.userTasks.values.all fun task => task.id < 1) &&
          (store.tokens.values.any fun t => t.awaitsMessage "letter") &&
          store.tokens.values.all fun t => !t.awaitsMessage "letter" ||
            store.tokens.values.any fun u =>
              u.instanceId = t.instanceId && u.id ≠ t.id && u.awaitsMessage "letter") = true := by
    decide +kernel
  obtain ⟨store, hstore, hfacts⟩ := (Option.any_eq_true ..).1 hruns
  obtain ⟨hthree, hall⟩ := Bool.and_eq_true_iff.1 hfacts
  obtain ⟨htwo, hany⟩ := Bool.and_eq_true_iff.1 hthree
  obtain ⟨hbelow, htasks⟩ := Bool.and_eq_true_iff.1 htwo
  obtain ⟨t, ht, hawaits⟩ := List.any_eq_true.1 hany
  have hrun : Shared.Leads (Job.program fun _ _ => some letters) newIds
      (Shared.fresh ∅ : Shared Bool Job Store)
      ⟨store, fun _ => none, [.start letters none none none (circumstances 0)]⟩ :=
    Shared.Leads.performs (fun _ _ _ _ h => h) _ .refl hstore
  obtain ⟨n, hsound⟩ := (hrun.kept newIds_kept (.fresh orderly_empty)).1.state.sound
  have hwaits : store.AwaitsMessage "letter" none t := ⟨ht, hawaits, nofun⟩
  refine ⟨_, hrun, ⟨t, hwaits⟩, fun h => ?_⟩
  have hfinds := (oneToOne_iff_findsOne (s := letters.surroundings 10)
    (hsound.of_below (of_decide_eq_true hbelow))
    fun task htask => of_decide_eq_true (List.all_eq_true.1 htasks task htask)).1 h
  unfold FindsOne at hfinds
  split at hfinds
  · exact hfinds ⟨t, hwaits⟩
  · obtain ⟨-, t, hwaits, -, halone⟩ := hfinds
    have hother := List.all_eq_true.1 hall t hwaits.mem
    rw [hwaits.awaits, Bool.not_true, Bool.false_or] at hother
    obtain ⟨u, hu, hfacts⟩ := List.any_eq_true.1 hother
    simp only [Bool.and_eq_true, decide_eq_true_eq] at hfacts
    obtain ⟨⟨hinst, hne⟩, huawaits⟩ := hfacts
    have hnot := (halone u hu hinst hne).1
    rw [huawaits] at hnot
    cases hnot

end NexusWorkflow
