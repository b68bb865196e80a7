import NexusWorkflow.Proof.Messages

/-!
# Broadcast of signals

`POST /signals` should resume every token that waits for the signal, in whatever instance, once, and
should count the instances.  It finds the subscriptions first and then runs the command once for
each of them, but every time on all tokens of the instance that wait by then: an instance with two
subscriptions gets the signal twice.
-/

namespace NexusWorkflow

/-! ## Turns -/

/-- The cycle of `POST /signals` for the subscription that is the `n`-th one. -/
def signalCycle (s : Surroundings) (n : Nat) (name : String) (vars : Option Variables) : Cycle :=
  (s.circumstances n).cycle closesNothing (fun _ => true) (.broadcastSignal name vars)
    (EngineCommand.broadcastSignal_goesOn name vars)

/-- A turn of the loop: the number of its cycle, the instance of its subscription, and the store by
then. -/
structure SignalTurn where
  n : Nat
  instanceId : Nat
  store : Store

def CycleOutcome.isSaved : CycleOutcome → Bool
  | saved _ _ => true
  | _ => false

/-- The tokens of the state that are resumed by the signal: they wait, and the handler completes
them. -/
def resumedBySignal (d : ProcessDefinition) (state : EngineState) (options : ExecuteOptions)
    (name : String) (vars : Option Variables) : List Token :=
  match handleBroadcastSignal d (ExecutionContext.create (some state) options) name vars with
  | .error _ => []
  | .ok ctx => state.tokens.filter fun t =>
      t.status = .waiting ∧ (ctx.tokenMap.get? t.id).any (·.status = .completed)

/-- The tokens that wait for the signal. -/
def Store.waitersFor (store : Store) (name : String) : List Token :=
  store.tokens.values.filter (Token.awaitsSignal name)

section

variable (s : Surroundings) (name : String) (vars : Option Variables)

namespace SignalTurn

def outcome (turn : SignalTurn) : CycleOutcome :=
  (signalCycle s turn.n name vars).attempt s.definitions turn.instanceId turn.store

/-- The instance of the turn, with its definition. -/
def finds (turn : SignalTurn) : Option (EngineState × ProcessDefinition) := do
  let (state, _) ← (loadEngineState (s.circumstances turn.n).order turn.instanceId).alone turn.store
  let d ← s.definitions state.inst.definitionId state.inst.definitionVersion
  pure (state, d)

/-- The instance takes the signal: it is there with its definition, and the engine runs on without
an error. -/
def takes (turn : SignalTurn) : Bool :=
  (turn.finds s).any fun (state, d) =>
    (execute d (s.circumstances turn.n).fuel (.broadcastSignal name vars) (some state)
      (s.circumstances turn.n).options).toOption.isSome

/-- The ids of the tokens that the command of the turn resumes. -/
def resumed (turn : SignalTurn) : List Nat :=
  (turn.finds s).elim [] fun (state, d) =>
    (resumedBySignal d state (s.circumstances turn.n).options name vars).map (·.id)

/-- What the turn makes new gets ids that the store does not have yet. -/
structure Fresh (turn : SignalTurn) : Prop where
  ids : turn.store.Below (s.circumstances turn.n).options.firstId
  tasks : ∀ task ∈ turn.store.userTasks.values, task.id < (s.circumstances turn.n).firstTaskId

end SignalTurn

/-- The turns of the loop. -/
def signalTurns : List EventSubscription → Nat → Store → List SignalTurn
  | [], _, _ => []
  | sub :: subs, n, store =>
      ⟨n, sub.instanceId, store⟩ ::
        match SignalTurn.outcome s name vars ⟨n, sub.instanceId, store⟩ with
        | .saved _ store' => signalTurns subs (n + 1) store'
        | .refused _ => []
        | _ => signalTurns subs (n + 1) store

/-- The turns of `POST /signals`. -/
def Store.signalTurns (store : Store) : List SignalTurn :=
  NexusWorkflow.signalTurns s name vars
    (s.subscriptions (store.findSubscriptions { type := .signal, signalName := some name })) 0 store

/-- What `POST /signals` should do: the tokens that wait for the signal when it comes are resumed,
each of them once, and no others; and their instances are counted. -/
structure ReachesEachOnce (store : Store) (answer : Reply × Store) : Prop where
  status : answer.1.status = 200
  resumed : (((store.signalTurns s name vars).filter fun turn =>
    (turn.outcome s name vars).isSaved).flatMap (SignalTurn.resumed s name vars)).Perm
      ((store.waitersFor name).map (·.id))
  delivered : answer.1.delivered = (distinct ((store.waitersFor name).map (·.instanceId))).length

/-- What the request needs to find.  The instances that take the signal, when it is their turn, are
those with a token that waits for it, each of them once; and no two of these tokens have the same
parent. -/
structure SignalsOnce (store : Store) : Prop where
  instances : (((store.signalTurns s name vars).filter (SignalTurn.takes s name vars)).map
    (·.instanceId)).Perm (distinct ((store.waitersFor name).map (·.instanceId)))
  apart : ∀ t ∈ store.waitersFor name, ∀ u ∈ store.waitersFor name, ¬ Pool.TouchesSiblings t u

end

/-! ## Handlers -/

variable {d : ProcessDefinition} {state : EngineState} {options : ExecuteOptions} {nextId : Nat}
  {name : String} {vars : Option Variables} {mid : ExecutionContext} {t : Token}

/-- The targets of the signal, as the game sees them. -/
def EngineState.targets (state : EngineState) (name : String) : List Token :=
  (state.tokens.map Token.erase).filter (Token.awaitsSignal name)

/-- The targets that are resumed are those that have no sibling before them. -/
theorem mem_resumedBySignal (hrest : state.Resting nextId) (hn : nextId ≤ options.firstId)
    (h : handleBroadcastSignal d (ExecutionContext.create (some state) options) name vars =
    .ok mid) :
    t ∈ resumedBySignal d state options name vars ↔
      t ∈ state.tokens ∧ t.erase ∈ resumed [] (state.targets name) := by
  have hcoh := hrest.coherent hn
  have hcommanded : Commanded d (ExecutionContext.create (some state) options).pool
      (.broadcastSignal name vars) mid.pool := handleCommand_commanded hcoh.numbered h
  have htokens : (ExecutionContext.create (some state) options).pool.tokens =
      state.tokens.map Token.erase := by
    rw [ExecutionContext.pool, hrest.tokenMap]
  have hresumed : t ∈ resumedBySignal d state options name vars ↔
      t ∈ state.tokens ∧ t.status = .waiting ∧
        ∃ x, mid.tokenMap.get? t.id = some x ∧ x.status = .completed := by
    unfold resumedBySignal
    rw [h, List.mem_filter]
    simp [Option.any_eq_true]
  rw [hresumed]
  cases hcommanded with
  | deed hdeed _ => cases hdeed
  | broadcastSignal _ _ hresumes =>
    have hleft := TargetsLeft.of_filter hcoh.nodup (p := Token.awaitsSignal name)
      fun x hx => Token.awaitsSignal_waiting hx
    rw [htokens] at hresumes hleft
    refine and_congr_right fun ht => ?_
    have hthere : t.erase ∈ (ExecutionContext.create (some state) options).pool.tokens := by
      rw [htokens]
      exact List.mem_map_of_mem ht
    constructor
    · rintro ⟨hwaiting, x, hx, hcompleted⟩
      obtain ⟨hmem, hid⟩ := KeyedMap.get?_eq_some_iff.1 hx
      exact hresumes.of_completed hcoh hleft hthere hwaiting (mid.mem_pool hmem) hid hcompleted
    · intro hin
      have hcompleted := hresumes.completes hcoh hleft hin
      obtain ⟨x, hx, hxt⟩ : ∃ x ∈ mid.tokenMap.values,
          x.erase = { t.erase with status := .completed } := List.mem_map.1 hcompleted
      have hwaiting : t.erase.status = .waiting :=
          hleft.waiting _ ((resumed_sublist _ _).subset hin)
      refine ⟨hwaiting, x, ?_, ?_⟩
      · have hid : x.erase.id = t.id := by rw [hxt]; rfl
        have hid : x.id = t.id := hid
        rw [← hid]
        exact KeyedMap.get?_of_mem hx
      · have hstatus : x.erase.status = .completed := by rw [hxt]
        exact hstatus

theorem awaits_of_mem_resumedBySignal (hrest : state.Resting nextId) (hn : nextId ≤ options.firstId)
    (h : handleBroadcastSignal d (ExecutionContext.create (some state) options) name vars = .ok mid)
    (ht : t ∈ resumedBySignal d state options name vars) :
    t ∈ state.tokens ∧ t.awaitsSignal name = true := by
  obtain ⟨hmem, hin⟩ := (mem_resumedBySignal hrest hn h).1 ht
  have htarget : t.erase ∈ state.targets name := (resumed_sublist _ _).subset hin
  have hawaits : t.erase.awaitsSignal name = true := (List.mem_filter.1 htarget).2
  exact ⟨hmem, hawaits⟩

theorem apart_of_mem_resumedBySignal {u : Token} (hrest : state.Resting nextId)
    (hn : nextId ≤ options.firstId)
    (h : handleBroadcastSignal d (ExecutionContext.create (some state) options) name vars = .ok mid)
    (ht : t ∈ resumedBySignal d state options name vars)
    (hu : u ∈ resumedBySignal d state options name vars) : ¬ Pool.TouchesSiblings t u := by
  have hapart := (resumed_apart [] (state.targets name)).2
  have hsymm : Std.Symm fun x y : Token => ¬ Pool.TouchesSiblings x y := by
    refine ⟨fun x y hnot htouch => ?_⟩
    obtain ⟨hne, hparent, hsame⟩ := htouch
    exact hnot ⟨hne.symm, hsame ▸ hparent, hsame.symm⟩
  have hself : ∀ x ∈ resumed [] (state.targets name), ¬ Pool.TouchesSiblings x x :=
    fun x _ htouch => htouch.1 rfl
  have hall : ¬ Pool.TouchesSiblings t.erase u.erase := List.Pairwise.forall_of_forall hself hapart
    ((mem_resumedBySignal hrest hn h).1 ht).2 ((mem_resumedBySignal hrest hn h).1 hu).2
  exact hall

/-- All targets are resumed when no two of them are siblings. -/
theorem resumedBySignal_eq (hrest : state.Resting nextId) (hn : nextId ≤ options.firstId)
    (h : handleBroadcastSignal d (ExecutionContext.create (some state) options) name vars = .ok mid)
    (hapart : ∀ t ∈ state.tokens.filter (Token.awaitsSignal name),
      ∀ u ∈ state.tokens.filter (Token.awaitsSignal name), ¬ Pool.TouchesSiblings t u) :
    resumedBySignal d state options name vars = state.tokens.filter (Token.awaitsSignal name) := by
  have hsources : ∀ x ∈ state.targets name, ∃ t ∈ state.tokens.filter (Token.awaitsSignal name),
      t.erase = x := by
    intro x hx
    obtain ⟨hx, hawaits⟩ := List.mem_filter.1 hx
    obtain ⟨t, ht, rfl⟩ := List.mem_map.1 hx
    exact ⟨t, List.mem_filter.2 ⟨ht, hawaits⟩, rfl⟩
  have hall : resumed [] (state.targets name) = state.targets name := by
    apply resumed_eq
    intro x hx y hy
    obtain ⟨t, ht, rfl⟩ := hsources x hx
    obtain ⟨u, hu, rfl⟩ := hsources y hy
    exact hapart t ht u hu
  have hiff : ∀ t, t ∈ resumedBySignal d state options name vars ↔
      t ∈ state.tokens ∧ t.erase ∈ state.targets name := by
    intro t
    rw [mem_resumedBySignal hrest hn h, hall]
  unfold resumedBySignal at hiff ⊢
  rw [h] at hiff ⊢
  refine List.filter_congr fun t ht => ?_
  have hiff := hiff t
  simp only [List.mem_filter, ht, true_and, EngineState.targets] at hiff
  rw [Bool.eq_iff_iff, hiff]
  exact ⟨fun hin => hin.2, fun hawaits => ⟨List.mem_map_of_mem ht, hawaits⟩⟩

/-! ## A turn -/

variable {s : Surroundings} {store store' : Store}

namespace SignalTurn

variable {turn : SignalTurn}

/-- The store when the turn is done. -/
def after (s : Surroundings) (name : String) (vars : Option Variables) (turn : SignalTurn) :
    Store :=
  match turn.outcome s name vars with
  | .saved _ store' => store'
  | _ => turn.store

/-- A turn that the instance takes is saved. -/
theorem done_of_takes (hfresh : turn.Fresh s) (h : turn.takes s name vars = true) :
    ∃ d state version result ops store', turn.finds s = some (state, d) ∧
      (signalCycle s turn.n name vars).Done s.definitions turn.instanceId turn.store d state version
      result
        ops store' := by
  obtain ⟨⟨state, d⟩, hfound, hok⟩ := (Option.any_eq_true ..).1 h
  obtain ⟨result, hresult⟩ := Option.isSome_iff_exists.1 hok
  obtain ⟨⟨state', version⟩, hloads, hrest⟩ := Option.bind_eq_some_iff.1 hfound
  obtain ⟨d', hfinds, heq⟩ := Option.bind_eq_some_iff.1 hrest
  cases heq
  obtain ⟨ops, store', hdone⟩ :=
    Cycle.done_of_executes (c := signalCycle s turn.n name vars) rfl hloads rfl
    hfinds (Except.eq_ok_of_toOption hresult) hfresh.tasks
  exact ⟨d, state, version, result, ops, store', hfound, hdone⟩

/-- Otherwise it is passed over. -/
theorem passed_of_not_takes (h : turn.takes s name vars = false) :
    (turn.outcome s name vars).isSaved = false ∧ ∀ e, turn.outcome s name vars ≠ .refused e := by
  have hfails : ∀ state version d result,
      (loadEngineState (s.circumstances turn.n).order turn.instanceId).alone turn.store =
        some (state, version) →
      s.definitions state.inst.definitionId state.inst.definitionVersion = some d →
      execute d (s.circumstances turn.n).fuel (.broadcastSignal name vars) (some state)
        (s.circumstances turn.n).options ≠ .ok result := by
    intro state version d result hloads hfinds hok
    unfold takes finds at h
    rw [hloads, Option.bind_eq_bind, Option.bind_some] at h
    simp [hfinds, hok, Except.toOption] at h
  unfold outcome Cycle.attempt
  split
  · exact ⟨rfl, fun _ => by simp⟩
  · rename_i state version hloads
    split
    · split
      · exact ⟨rfl, fun _ => by simp⟩
      · rename_i d hfinds
        split
        · exact ⟨rfl, fun _ => by simp⟩
        · rename_i result hexecutes
          exact absurd hexecutes (hfails state version d result hloads hfinds)
    · exact ⟨rfl, fun _ => by simp⟩

theorem isSaved_eq (hfresh : turn.Fresh s) :
    (turn.outcome s name vars).isSaved = turn.takes s name vars := by
  cases htakes : turn.takes s name vars with
  | false => exact (passed_of_not_takes htakes).1
  | true =>
    obtain ⟨d, state, version, result, ops, store', -, hdone⟩ := done_of_takes hfresh htakes
    rw [outcome, hdone.attempt_eq]
    rfl

end SignalTurn

variable {subs : List EventSubscription} {sub : EventSubscription} {n : Nat}

theorem signalTurns_cons (hfresh : SignalTurn.Fresh s ⟨n, sub.instanceId, store⟩) :
    signalTurns s name vars (sub :: subs) n store = ⟨n, sub.instanceId, store⟩ ::
      signalTurns s name vars subs (n + 1)
        (SignalTurn.after s name vars ⟨n, sub.instanceId, store⟩) := by
  unfold SignalTurn.after
  rw [signalTurns]
  cases htakes : SignalTurn.takes s name vars ⟨n, sub.instanceId, store⟩ with
  | true =>
    obtain ⟨d, state, version, result, ops, store', -, hdone⟩ :=
      SignalTurn.done_of_takes hfresh htakes
    have houtcome : SignalTurn.outcome s name vars ⟨n, sub.instanceId, store⟩ =
        .saved result store' :=
      hdone.attempt_eq
    rw [houtcome]
  | false =>
    obtain ⟨hsaved, hrefused⟩ := SignalTurn.passed_of_not_takes htakes
    generalize SignalTurn.outcome s name vars ⟨n, sub.instanceId, store⟩ =
      outcome at hsaved hrefused
    cases outcome with
    | saved result store' => cases hsaved
    | refused e => exact absurd rfl (hrefused e)
    | _ => rfl

/-- With new ids the loop comes to its end, and it counts the turns that are taken. -/
theorem broadcast_eq (hfresh : ∀ turn ∈ signalTurns s name vars subs n store, turn.Fresh s)
    (delivered : Nat) : (broadcast s name vars subs n delivered store).1 =
      { status := 200, delivered := delivered + ((signalTurns s name vars subs n store).filter
        (SignalTurn.takes s name vars)).length } := by
  induction subs generalizing n store delivered with
  | nil => rfl
  | cons sub subs ih =>
    have hfirst : SignalTurn.Fresh s ⟨n, sub.instanceId, store⟩ := hfresh _ List.mem_cons_self
    rw [signalTurns_cons hfirst] at hfresh ⊢
    have hrest := fun turn hturn => hfresh turn (List.mem_cons_of_mem _ hturn)
    have ih := ih hrest
    rw [broadcast]
    change (match SignalTurn.outcome s name vars ⟨n, sub.instanceId, store⟩ with
      | .saved _ store' => broadcast s name vars subs (n + 1) (delivered + 1) store'
      | .refused e => ({ status := e.httpStatus }, store)
      | _ => broadcast s name vars subs (n + 1) delivered store).1 = _
    unfold SignalTurn.after at ih ⊢
    cases htakes : SignalTurn.takes s name vars ⟨n, sub.instanceId, store⟩ with
    | true =>
      obtain ⟨d, state, version, result, ops, store', -, hdone⟩ :=
        SignalTurn.done_of_takes hfirst htakes
      have houtcome : SignalTurn.outcome s name vars ⟨n, sub.instanceId, store⟩ =
          .saved result store' :=
        hdone.attempt_eq
      rw [houtcome] at ih ⊢
      rw [List.filter_cons_of_pos htakes, List.length_cons]
      refine (ih (delivered + 1)).trans ?_
      simp only [Reply.mk.injEq, true_and]
      omega
    | false =>
      obtain ⟨hsaved, hrefused⟩ := SignalTurn.passed_of_not_takes htakes
      rw [List.filter_cons_of_neg (by simp [htakes])]
      generalize SignalTurn.outcome s name vars ⟨n, sub.instanceId, store⟩ = outcome
        at hsaved hrefused ih ⊢
      cases outcome with
      | saved result store' => cases hsaved
      | refused e => exact absurd rfl (hrefused e)
      | _ => exact ih delivered

/-! ## What a turn does -/

namespace SignalTurn

variable {turn : SignalTurn}

/-- What a turn that is taken resumes. -/
structure Resumes (s : Surroundings) (name : String) (vars : Option Variables) (turn : SignalTurn) :
    Prop where
  targets : ∀ id ∈ turn.resumed s name vars, ∃ t ∈ turn.store.tokens.values, t.id = id ∧
    t.instanceId = turn.instanceId
  apart : ∀ t ∈ turn.store.tokens.values, ∀ u ∈ turn.store.tokens.values,
    t.id ∈ turn.resumed s name vars → u.id ∈ turn.resumed s name vars → ¬ Pool.TouchesSiblings t u
  all : (∀ t ∈ (turn.store.waitersFor name).filter (·.instanceId = turn.instanceId),
      ∀ u ∈ (turn.store.waitersFor name).filter (·.instanceId = turn.instanceId),
        ¬ Pool.TouchesSiblings t u) →
    (turn.resumed s name vars).Perm
      (((turn.store.waitersFor name).filter (·.instanceId = turn.instanceId)).map (·.id))

theorem resumes_of_takes (hsound : turn.store.Sound (s.circumstances turn.n).options.firstId)
    (hfresh : turn.Fresh s) (h : turn.takes s name vars = true) : turn.Resumes s name vars := by
  obtain ⟨d, state, version, result, ops, store', hfound, hdone⟩ := done_of_takes hfresh h
  obtain ⟨⟨row, -, hid, hstate⟩, -⟩ := hdone.continued hsound (le_refl _)
  have hrest : state.Resting (s.circumstances turn.n).options.firstId := by
    rw [hstate]
    exact hsound.loaded _ _
  obtain ⟨mid, hmid, -⟩ := Except.bind_eq_ok_iff.1 hdone.executes
  have hmid : handleBroadcastSignal d (ExecutionContext.create (some state)
      (s.circumstances turn.n).options) name vars = .ok mid := hmid
  have hresumed : turn.resumed s name vars =
      (resumedBySignal d state (s.circumstances turn.n).options name vars).map (·.id) := by
    unfold resumed
    rw [hfound]
    rfl
  have hloaded : ∀ u ∈ state.tokens, ∃ x ∈ turn.store.tokens.values,
      x.instanceId = turn.instanceId ∧ reviveToken x = u := by
    intro u hu
    rw [hstate] at hu
    obtain ⟨x, hx, hinst, hxu⟩ := mem_loaded.1 hu
    exact ⟨x, hx, hinst.trans hid, hxu⟩
  have hsource : ∀ t ∈ turn.store.tokens.values, t.id ∈ turn.resumed s name vars →
      reviveToken t ∈ resumedBySignal d state (s.circumstances turn.n).options name vars := by
    intro t ht hin
    rw [hresumed] at hin
    obtain ⟨u, hu, huid⟩ := List.mem_map.1 hin
    obtain ⟨x, hx, -, rfl⟩ := hloaded u (awaits_of_mem_resumedBySignal hrest (le_refl _) hmid hu).1
    have hxid : x.id = t.id := huid
    rw [← KeyedMap.eq_of_key_eq hx ht hxid]
    exact hu
  refine ⟨fun id hin => ?_, fun t ht u hu htin huin => ?_, fun hapart => ?_⟩
  · rw [hresumed] at hin
    obtain ⟨u, hu, rfl⟩ := List.mem_map.1 hin
    obtain ⟨x, hx, hinst, rfl⟩ :=
      hloaded u (awaits_of_mem_resumedBySignal hrest (le_refl _) hmid hu).1
    exact ⟨x, hx, rfl, hinst⟩
  · have hnot : ¬ Pool.TouchesSiblings (reviveToken t) (reviveToken u) :=
      apart_of_mem_resumedBySignal hrest (le_refl _) hmid (hsource t ht htin) (hsource u hu huin)
    exact hnot
  · have hwaiter : ∀ u ∈ state.tokens.filter (Token.awaitsSignal name),
        ∃ x ∈ (turn.store.waitersFor name).filter (·.instanceId = turn.instanceId),
          reviveToken x = u := by
      intro u hu
      obtain ⟨hu, hawaits⟩ := List.mem_filter.1 hu
      obtain ⟨x, hx, hinst, rfl⟩ := hloaded u hu
      have hawaits : x.awaitsSignal name = true := hawaits
      exact ⟨x, List.mem_filter.2 ⟨List.mem_filter.2 ⟨hx, hawaits⟩, by simpa using hinst⟩, rfl⟩
    rw [hresumed, resumedBySignal_eq hrest (le_refl _) hmid]
    · have htokens : state.tokens = ((s.circumstances turn.n).order.tokens
          (turn.store.tokens.values.filter (·.instanceId = turn.instanceId))).map reviveToken := by
        rw [hstate, ← hid]
        rfl
      rw [htokens, List.filter_map, List.map_map]
      have hperm := ((s.circumstances turn.n).order.perm_tokens
        (turn.store.tokens.values.filter (·.instanceId = turn.instanceId))).filter
          (Token.awaitsSignal name)
      have hcomm : (turn.store.waitersFor name).filter (·.instanceId = turn.instanceId) =
          (turn.store.tokens.values.filter (·.instanceId = turn.instanceId)).filter
            (Token.awaitsSignal name) := by
        unfold Store.waitersFor
        exact List.filter_comm _ _ _
      rw [hcomm]
      exact hperm.map (·.id)
    · intro t ht u hu
      obtain ⟨x, hx, rfl⟩ := hwaiter t ht
      obtain ⟨y, hy, rfl⟩ := hwaiter u hu
      have hnot := hapart x hx y hy
      exact hnot

end SignalTurn

/-- From one store to another, cycles of the given instances have been run: the tokens of the other
instances are as they were, and every token is still one of its instance. -/
structure Store.Follows (store : Store) (instances : List Nat) (store' : Store) : Prop where
  others : ∀ x : Token, x.instanceId ∉ instances →
    (x ∈ store'.tokens.values ↔ x ∈ store.tokens.values)
  kept : ∀ t ∈ store.tokens.values, ∃ x ∈ store'.tokens.values, x.id = t.id ∧
    x.instanceId = t.instanceId

theorem Store.Follows.trans {store'' : Store} {l l' : List Nat} (h : store.Follows l store')
    (h' : store'.Follows l' store'') : store.Follows (l ++ l') store'' where
  others x hx := by
    rw [List.mem_append, not_or] at hx
    exact (h'.others x hx.2).trans (h.others x hx.1)
  kept t ht := by
    obtain ⟨x, hx, hid, hinst⟩ := h.kept t ht
    obtain ⟨y, hy, hyid, hyinst⟩ := h'.kept x hx
    exact ⟨y, hy, hyid.trans hid, hyinst.trans hinst⟩

theorem Store.Follows.refl (store : Store) : store.Follows [] store where
  others _ _ := Iff.rfl
  kept t ht := ⟨t, ht, rfl, rfl⟩

namespace SignalTurn

variable {turn : SignalTurn}

/-- The instances that the turn changes. -/
def taken (s : Surroundings) (name : String) (vars : Option Variables) (turns : List SignalTurn) :
    List Nat :=
  (turns.filter (takes s name vars)).map (·.instanceId)

theorem follows_after (hsound : turn.store.Sound (s.circumstances turn.n).options.firstId)
    (hfresh : turn.Fresh s) :
    turn.store.Follows (taken s name vars [turn]) (turn.after s name vars) ∧
      ∃ k, (turn.after s name vars).Sound k := by
  unfold after taken
  cases htakes : turn.takes s name vars with
  | true =>
    obtain ⟨d, state, version, result, ops, store', -, hdone⟩ := done_of_takes hfresh htakes
    obtain ⟨⟨row, -, hid, hstate⟩, hcont⟩ := hdone.continued hsound (le_refl _)
    have hreplaced := hdone.replaced hsound (le_refl _)
    have hnew : result.newState.inst.id = turn.instanceId := by
      rw [hcont.instId, hstate]
      exact hid
    have houtcome : turn.outcome s name vars = .saved result store' := hdone.attempt_eq
    rw [houtcome, List.filter_cons_of_pos htakes]
    refine ⟨⟨fun x hx => ?_, fun t ht => ?_⟩, result.nextId, hdone.sound hsound (le_refl _)⟩
    · have hne : x.instanceId ≠ turn.instanceId := by simpa using hx
      have hmem := hreplaced.tokens x
      rw [hnew] at hmem
      constructor
      · intro hx
        rcases hmem.1 hx with hx | ⟨hx, -⟩
        · exact absurd ((hcont.resting.tokens x hx).trans hnew) hne
        · exact hx
      · exact fun hx => hmem.2 (.inr ⟨hx, hne⟩)
    · by_cases hinst : t.instanceId = turn.instanceId
      · have hold : reviveToken t ∈ state.tokens := by
          rw [hstate]
          exact mem_loaded.2 ⟨t, ht, hinst.trans hid.symm, rfl⟩
        obtain ⟨y, hy, hyid⟩ := hcont.keptId hold
        exact ⟨y, (hreplaced.tokens y).2 (.inl hy), hyid,
          ((hcont.resting.tokens y hy).trans hnew).trans hinst.symm⟩
      · exact ⟨t, (hreplaced.tokens t).2 (.inr ⟨ht, hnew ▸ hinst⟩), rfl, rfl⟩
  | false =>
    obtain ⟨hsaved, -⟩ := passed_of_not_takes htakes
    rw [List.filter_cons_of_neg (by simp [htakes])]
    have hsame : (match turn.outcome s name vars with
        | .saved _ store' => store'
        | _ => turn.store) = turn.store := by
      generalize turn.outcome s name vars = outcome at hsaved
      cases outcome with
      | saved result store' => cases hsaved
      | _ => rfl
    rw [hsame]
    exact ⟨.refl turn.store, _, hsound⟩

end SignalTurn

/-- What a turn finds: what the turns before it have left. -/
theorem signalTurns_follow {k : Nat} {pre post : List SignalTurn} {turn : SignalTurn}
    (hfresh : ∀ turn ∈ signalTurns s name vars subs n store, turn.Fresh s) (hsound : store.Sound k)
    (h : signalTurns s name vars subs n store = pre ++ turn :: post) :
    turn.store.Sound (s.circumstances turn.n).options.firstId ∧
      store.Follows (SignalTurn.taken s name vars pre) turn.store := by
  induction subs generalizing n store pre k with
  | nil =>
    rw [signalTurns] at h
    simp at h
  | cons sub subs ih =>
    have hfirst : SignalTurn.Fresh s ⟨n, sub.instanceId, store⟩ := hfresh _ List.mem_cons_self
    rw [signalTurns_cons hfirst] at h hfresh
    have hrest := fun turn hturn => hfresh turn (List.mem_cons_of_mem _ hturn)
    have hstart : store.Sound (s.circumstances n).options.firstId := hsound.of_below hfirst.ids
    cases pre with
    | nil =>
      obtain ⟨rfl, -⟩ := List.cons_eq_cons.1 h
      exact ⟨hstart, .refl store⟩
    | cons first pre =>
      obtain ⟨rfl, hmore⟩ := List.cons_eq_cons.1 h
      have hafter : store.Follows (SignalTurn.taken s name vars [⟨n, sub.instanceId, store⟩])
            (SignalTurn.after s name vars ⟨n, sub.instanceId, store⟩) ∧
          ∃ k, (SignalTurn.after s name vars ⟨n, sub.instanceId, store⟩).Sound k :=
        SignalTurn.follows_after hstart hfirst
      obtain ⟨hafter, k', hsound'⟩ := hafter
      obtain ⟨hturn, hfollows⟩ := ih hrest hsound' hmore
      refine ⟨hturn, ?_⟩
      have htrans := hafter.trans hfollows
      unfold SignalTurn.taken at htrans ⊢
      rw [← List.map_append, ← List.filter_append] at htrans
      exact htrans

/-! ## The law -/

/-- A list, sorted into the classes that `key` makes of it. -/
theorem flatMap_filter_perm {α β : Type} [DecidableEq β] (key : α → β) (l : List α) {keys : List β}
    (hnd : keys.Nodup) (hkeys : ∀ a ∈ l, key a ∈ keys) :
    (keys.flatMap fun b => l.filter (key · = b)).Perm l := by
  induction keys generalizing l with
  | nil =>
    cases l with
    | nil => exact .refl _
    | cons a l => exact absurd (hkeys a List.mem_cons_self) List.not_mem_nil
  | cons b keys ih =>
    obtain ⟨hb, hnd⟩ := List.nodup_cons.1 hnd
    have hrest : (keys.flatMap fun c => l.filter (key · = c)).Perm (l.filter (key · ≠ b)) := by
      have hclasses : (keys.flatMap fun c => l.filter (key · = c)) =
          keys.flatMap fun c => (l.filter (key · ≠ b)).filter (key · = c) := by
        refine List.flatMap_congr fun c hc => ?_
        rw [List.filter_filter]
        refine List.filter_congr fun a _ => ?_
        by_cases hac : key a = c
        · have hne : c ≠ b := fun heq => hb (heq ▸ hc)
          simp [hac, hne]
        · simp [hac]
      rw [hclasses]
      refine ih _ hnd fun a ha => ?_
      obtain ⟨ha, hne⟩ := List.mem_filter.1 ha
      exact (List.mem_cons.1 (hkeys a ha)).resolve_left (by simpa using hne)
    rw [List.flatMap_cons]
    refine (hrest.append_left _).trans ?_
    have hboth := List.filter_append_perm (fun a => decide (key a = b)) l
    simpa using hboth

theorem mem_waitersFor : t ∈ store.waitersFor name ↔
    t ∈ store.tokens.values ∧ t.awaitsSignal name = true := List.mem_filter

/-- Two tokens with the same parent are of one instance. -/
theorem Store.Sound.instanceId_eq {k : Nat} {u : Token} (h : store.Sound k)
    (ht : t ∈ store.tokens.values) (hu : u ∈ store.tokens.values)
    (hsiblings : Pool.TouchesSiblings t u) : u.instanceId = t.instanceId := by
  obtain ⟨-, hparent, hsame⟩ := hsiblings
  obtain ⟨p, hp⟩ := Option.ne_none_iff_exists'.1 hparent
  obtain ⟨-, x, hx, hxid, hxinst⟩ := h.parents t ht p hp
  obtain ⟨-, y, hy, hyid, hyinst⟩ := h.parents u hu p (hsame.trans hp)
  rw [← hxinst, ← hyinst, KeyedMap.eq_of_key_eq hy hx (hyid.trans hxid.symm)]

/-- `POST /signals` with new ids does what it should exactly if it finds what it needs. -/
theorem reachesEachOnce_iff_signalsOnce {k : Nat} (hsound : store.Sound k)
    (hfresh : ∀ turn ∈ store.signalTurns s name vars, turn.Fresh s) :
    ReachesEachOnce s name vars store (postSignals s store name vars) ↔
      SignalsOnce s name vars store := by
  have hanswer : (postSignals s store name vars).1 = { status := 200, delivered :=
      0 + ((store.signalTurns s name vars).filter (SignalTurn.takes s name vars)).length } :=
    broadcast_eq hfresh 0
  have hsaved : ((store.signalTurns s name vars).filter fun turn =>
      (turn.outcome s name vars).isSaved) =
        (store.signalTurns s name vars).filter (SignalTurn.takes s name vars) :=
    List.filter_congr fun turn hturn => SignalTurn.isSaved_eq (hfresh turn hturn)
  have hturns : ∀ turn ∈ (store.signalTurns s name vars).filter (SignalTurn.takes s name vars),
      turn.Resumes s name vars ∧ ∃ pre post, store.signalTurns s name vars = pre ++ turn :: post ∧
        store.Follows (SignalTurn.taken s name vars pre) turn.store := by
    intro turn hturn
    obtain ⟨hmem, htakes⟩ := List.mem_filter.1 hturn
    obtain ⟨pre, post, hsplit⟩ := List.append_of_mem hmem
    obtain ⟨hturnSound, hfollows⟩ := signalTurns_follow hfresh hsound hsplit
    exact ⟨SignalTurn.resumes_of_takes hturnSound (hfresh turn hmem) htakes, pre, post, hsplit,
      hfollows⟩
  -- where no instance has its turn twice, a turn finds the tokens of its instance as they were at
  -- first
  have hasFirst : ((store.signalTurns s name vars).filter (SignalTurn.takes s name vars)).map
      (·.instanceId) |>.Nodup → ∀ turn ∈ (store.signalTurns s name vars).filter
        (SignalTurn.takes s name vars), ∀ x : Token, x.instanceId = turn.instanceId →
          (x ∈ turn.store.tokens.values ↔ x ∈ store.tokens.values) := by
    intro hnd turn hturn x hx
    obtain ⟨-, pre, post, hsplit, hfollows⟩ := hturns turn hturn
    refine hfollows.others x ?_
    rw [hsplit, List.filter_append, List.filter_cons_of_pos (List.mem_filter.1 hturn).2,
      List.map_append,
      List.map_cons] at hnd
    rw [hx]
    exact fun hin => (List.nodup_append.1 hnd).2.2 _ hin _ List.mem_cons_self rfl
  constructor
  · intro h
    have hresumed := h.resumed
    have hdelivered := h.delivered
    rw [hsaved] at hresumed
    rw [hanswer] at hdelivered
    have hgoes : ∀ t ∈ store.waitersFor name, ∃ turn ∈ (store.signalTurns s name vars).filter
        (SignalTurn.takes s name vars), t.id ∈ turn.resumed s name vars ∧
          turn.instanceId = t.instanceId := by
      intro t ht
      obtain ⟨turn, hturn, hin⟩ := List.mem_flatMap.1 (hresumed.mem_iff.2 (List.mem_map_of_mem ht))
      obtain ⟨hresumes, pre, post, -, hfollows⟩ := hturns turn hturn
      obtain ⟨x, hx, hid, hinst⟩ := hresumes.targets _ hin
      obtain ⟨y, hy, hyid, hyinst⟩ := hfollows.kept t (mem_waitersFor.1 ht).1
      refine ⟨turn, hturn, hin, ?_⟩
      rw [← hinst, ← hyinst, KeyedMap.eq_of_key_eq hx hy (hid.trans hyid.symm)]
    have hinstances : (((store.signalTurns s name vars).filter (SignalTurn.takes s name vars)).map
        (·.instanceId)).Perm (distinct ((store.waitersFor name).map (·.instanceId))) := by
      have hsub : distinct ((store.waitersFor name).map (·.instanceId)) ⊆
          ((store.signalTurns s name vars).filter (SignalTurn.takes s name vars)).map
            (·.instanceId) := by
        intro i hi
        obtain ⟨t, ht, rfl⟩ := List.mem_map.1 (mem_distinct.1 hi)
        obtain ⟨turn, hturn, -, hinst⟩ := hgoes t ht
        exact List.mem_map.2 ⟨turn, hturn, hinst⟩
      refine ((List.subperm_of_subset (nodup_distinct _) hsub).perm_of_length_le ?_).symm
      rw [List.length_map, ← hdelivered]
      simp
    refine ⟨hinstances, fun t ht u hu hsiblings => ?_⟩
    have hnd := hinstances.nodup_iff.2 (nodup_distinct _)
    obtain ⟨turn, hturn, htin, htinst⟩ := hgoes t ht
    obtain ⟨turn', hturn', huin, huinst⟩ := hgoes u hu
    have ht' := (mem_waitersFor.1 ht).1
    have hu' := (mem_waitersFor.1 hu).1
    have hsame := hsound.instanceId_eq ht' hu' hsiblings
    obtain rfl : turn' = turn := List.inj_on_of_nodup_map hnd hturn' hturn
      (huinst.trans (hsame.trans htinst.symm))
    exact (hturns _ hturn).1.apart t ((hasFirst hnd _ hturn t htinst.symm).2 ht') u
      ((hasFirst hnd _ hturn u huinst.symm).2 hu') htin huin hsiblings
  · intro h
    have hnd := h.instances.nodup_iff.2 (nodup_distinct _)
    refine ⟨by rw [hanswer], ?_, ?_⟩
    · have hclasses : ∀ turn ∈ (store.signalTurns s name vars).filter
        (SignalTurn.takes s name vars),
          (turn.resumed s name vars).Perm
            (((store.waitersFor name).filter (·.instanceId = turn.instanceId)).map (·.id)) := by
        intro turn hturn
        have hiff : ∀ t, t ∈ (turn.store.waitersFor name).filter (·.instanceId = turn.instanceId) ↔
            t ∈ (store.waitersFor name).filter (·.instanceId = turn.instanceId) := by
          intro t
          simp only [List.mem_filter, mem_waitersFor, decide_eq_true_eq]
          refine and_congr_left fun hinst => and_congr_left fun _ => ?_
          exact hasFirst hnd turn hturn t hinst
        have hresumes := (hturns turn hturn).1.all fun t ht u hu =>
          h.apart t (List.mem_filter.1 ((hiff t).1 ht)).1 u (List.mem_filter.1 ((hiff u).1 hu)).1
        have hnodup : ∀ store : Store,
            ((store.waitersFor name).filter (·.instanceId = turn.instanceId)).Nodup := fun store =>
          ((List.Nodup.of_map _ store.tokens.nodup).filter _).filter _
        exact hresumes.trans (((List.perm_ext_iff_of_nodup (hnodup _) (hnodup _)).2 hiff).map
          (·.id))
      rw [hsaved]
      refine (List.Perm.flatMap_left _ hclasses).trans ?_
      have hmap : (((store.signalTurns s name vars).filter (SignalTurn.takes s name vars)).flatMap
          fun turn => ((store.waitersFor name).filter (·.instanceId = turn.instanceId)).map
            (·.id)) =
            ((((store.signalTurns s name vars).filter (SignalTurn.takes s name vars)).map
              (·.instanceId)).flatMap fun i =>
                (store.waitersFor name).filter (·.instanceId = i)).map
                (·.id) := by
        rw [List.flatMap_map, List.map_flatMap]
      rw [hmap]
      refine List.Perm.map Token.id ((h.instances.flatMap_right _).trans ?_)
      exact flatMap_filter_perm Token.instanceId _ (nodup_distinct _) fun t ht =>
        mem_distinct.2 (List.mem_map_of_mem ht)
    · rw [hanswer, ← h.instances.length_eq, List.length_map]
      simp

variable {ι : Type} [DecidableEq ι]

/-- In every store that jobs lead to, and for every request that gets new ids: `POST /signals`
resumes the tokens that wait for the signal, each of them once, and counts their instances, if and
only if no instance that takes the signal gets it twice, these are the instances of the tokens, and
no two tokens have the same parent. -/
theorem reachesEachOnce_iff {definitions : String → Nat → Option ProcessDefinition}
    {S : Shared ι Job Store} (hrun : Shared.Leads (Job.program definitions) newIds
    (Shared.fresh ∅) S) (hfresh : ∀ turn ∈ S.state.signalTurns s name vars, turn.Fresh s) :
    ReachesEachOnce s name vars S.state (postSignals s S.state name vars) ↔
      SignalsOnce s name vars S.state := by
  obtain ⟨k, hsound⟩ := (hrun.kept newIds_kept (.fresh orderly_empty)).1.state.sound
  exact reachesEachOnce_iff_signalsOnce hsound hfresh

/-! ## Alarms -/

open Diagram

instance (turn : SignalTurn) : Decidable (turn.Fresh s) :=
  decidable_of_iff (turn.store.Below (s.circumstances turn.n).options.firstId ∧
    ∀ task ∈ turn.store.userTasks.values, task.id < (s.circumstances turn.n).firstTaskId)
    ⟨fun h => ⟨h.1, h.2⟩, fun h => ⟨h.ids, h.tasks⟩⟩

instance : Decidable (SignalsOnce s name vars store) :=
  decidable_of_iff ((((store.signalTurns s name vars).filter (SignalTurn.takes s name vars)).map
    (·.instanceId)).Perm (distinct ((store.waitersFor name).map (·.instanceId))) ∧
      ∀ t ∈ store.waitersFor name, ∀ u ∈ store.waitersFor name, ¬ Pool.TouchesSiblings t u)
    ⟨fun h => ⟨h.1, h.2⟩, fun h => ⟨h.instances, h.apart⟩⟩

def alarmFlows : List SequenceFlow :=
  [.between "toAlarm" "start" "alarm", .between "toEnd" "alarm" "end"]

/-- An alarm is waited for. -/
def alarm : ProcessDefinition :=
  definition alarmFlows
    [start alarmFlows "start",
      catchEvent alarmFlows "alarm" { type := .signal, signalName := some "alarm" },
      finish alarmFlows "end" .none]

/-- Two instances wait for the alarm, and each gets it once. -/
theorem reachesEachOnce_alarm : ∃ S : Shared Bool Job Store,
    Shared.Leads (Job.program fun _ _ => some alarm) newIds (Shared.fresh ∅) S ∧
    (S.state.waitersFor "alarm").length = 2 ∧
    ReachesEachOnce (alarm.surroundings 20) "alarm" none S.state
      (postSignals (alarm.surroundings 20) S.state "alarm" none) := by
  have hruns : (Shared.performs (Job.program fun _ _ => some alarm) Job.HasNewIds
      [.start alarm none none none (circumstances 0), .start alarm none none none (circumstances 1)]
        ∅).any (fun store =>
        (decide (∀ turn ∈ store.signalTurns (alarm.surroundings 20) "alarm" none,
          turn.Fresh (alarm.surroundings 20))) && (store.waitersFor "alarm").length = 2 &&
            decide (SignalsOnce (alarm.surroundings 20) "alarm" none store)) =
              true := by decide +kernel
  obtain ⟨store, hstore, hfacts⟩ := (Option.any_eq_true ..).1 hruns
  simp only [Bool.and_eq_true, decide_eq_true_eq] at hfacts
  obtain ⟨⟨hfresh, htwo⟩, honce⟩ := hfacts
  have hrun : Shared.Leads (Job.program fun _ _ => some alarm) newIds
      (Shared.fresh ∅ : Shared Bool Job Store) ⟨store, fun _ => none, _⟩ :=
    Shared.Leads.performs (fun _ _ _ _ h => h) _ .refl hstore
  exact ⟨_, hrun, htwo, (reachesEachOnce_iff hrun hfresh).2 honce⟩

def alarmsFlows : List SequenceFlow :=
  [.between "toSplit" "start" "split", .between "toFirst" "split" "first",
    .between "toOther" "split" "other", .between "toSecond" "first" "second",
    .between "secondOut" "second" "end", .between "otherOut" "other" "end"]

/-- An alarm is waited for on two branches, and on one of them another alarm after it. -/
def alarms : ProcessDefinition :=
  definition alarmsFlows
    [start alarmsFlows "start", .gateway (gateway alarmsFlows "split" .parallel),
      catchEvent alarmsFlows "first" { type := .signal, signalName := some "alarm" },
      catchEvent alarmsFlows "second" { type := .signal, signalName := some "alarm" },
      catchEvent alarmsFlows "other" { type := .signal, signalName := some "alarm" },
      finish alarmsFlows "end" .none]

/-- One instance waits for the alarm on two branches.  It gets it twice, and so the token that waits
for the second alarm is resumed too. -/
theorem not_reachesEachOnce_alarms : ∃ S : Shared Bool Job Store,
    Shared.Leads (Job.program fun _ _ => some alarms) newIds (Shared.fresh ∅) S ∧
    (postSignals (alarms.surroundings 10) S.state "alarm" none).1.delivered = 2 ∧
    (distinct ((S.state.waitersFor "alarm").map (·.instanceId))).length = 1 ∧
    (∃ turn ∈ S.state.signalTurns (alarms.surroundings 10) "alarm" none,
      ∃ id ∈ turn.resumed (alarms.surroundings 10) "alarm" none,
        id ∉ (S.state.waitersFor "alarm").map (·.id)) ∧
    ¬ ReachesEachOnce (alarms.surroundings 10) "alarm" none S.state
      (postSignals (alarms.surroundings 10) S.state "alarm" none) := by
  have hruns : (Shared.performs (Job.program fun _ _ => some alarms) Job.HasNewIds
      [.start alarms none none none (circumstances 0)] ∅).any (fun store =>
        (postSignals (alarms.surroundings 10) store "alarm" none).1.delivered = 2 &&
          (distinct ((store.waitersFor "alarm").map (·.instanceId))).length = 1 &&
            decide (∃ turn ∈ store.signalTurns (alarms.surroundings 10) "alarm" none,
              ∃ id ∈ turn.resumed (alarms.surroundings 10) "alarm" none,
                id ∉ (store.waitersFor "alarm").map (·.id))) = true := by
    decide +kernel
  obtain ⟨store, hstore, hfacts⟩ := (Option.any_eq_true ..).1 hruns
  simp only [Bool.and_eq_true, decide_eq_true_eq] at hfacts
  obtain ⟨⟨htwo, hone⟩, hlater⟩ := hfacts
  have hrun : Shared.Leads (Job.program fun _ _ => some alarms) newIds
      (Shared.fresh ∅ : Shared Bool Job Store) ⟨store, fun _ => none, _⟩ :=
    Shared.Leads.performs (fun _ _ _ _ h => h) _ .refl hstore
  refine ⟨_, hrun, htwo, hone, hlater, fun h => ?_⟩
  have hdelivered := h.delivered
  rw [htwo, hone] at hdelivered
  cases hdelivered

end NexusWorkflow
