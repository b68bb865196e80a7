import NexusWorkflow.Store.Diff
import NexusWorkflow.Store.Service

/-!
# Subscriptions and waiting tokens

A request keeps the subscriptions in step with the tokens; workers and timers leave them as they
are.  So the two agree as long as no worker and no timer makes a token begin or cease to wait for an
event.
-/

namespace NexusWorkflow

open StoreOperation

/-! ## The subscriptions that the tokens call for -/

/-- The subscription that a token should have. -/
def Token.ownSubscription (t : Token) : Option EventSubscription :=
  t.subscribedTo.map t.subscription

/-- The subscriptions are those that the tokens call for. -/
def Indexed (subscriptions : KeyedMap EventSubscription.tokenId) (tokens : KeyedMap Token.id) :
    Prop :=
  ∀ id, subscriptions.get? id = (tokens.get? id).bind Token.ownSubscription

theorem ownSubscription_of_none {t : Token} (h : t.subscribedTo = none) :
    t.ownSubscription = none := by
  rw [Token.ownSubscription, h, Option.map_none]

/-- The diff of a request carries the subscriptions from the old tokens of an instance to the new
ones. -/
theorem Indexed.diff {subscriptions : KeyedMap EventSubscription.tokenId}
    {tokens : KeyedMap Token.id} {oldTokens newTokens : List Token}
    (h : Indexed subscriptions tokens)
    (hold : (oldTokens.map (·.id)).Nodup) (hnew : (newTokens.map (·.id)).Nodup)
    (hrows : ∀ x ∈ oldTokens,
      (tokens.get? x.id).bind Token.ownSubscription = x.ownSubscription)
    (hmine : ∀ y ∈ newTokens, ∀ row ∈ tokens.values, row.id = y.id → ∃ x ∈ oldTokens, x.id = y.id)
    (hkept : ∀ x ∈ oldTokens, ∃ y ∈ newTokens, y.id = x.id)
    (hwait : ∀ y ∈ newTokens, y.status = .waiting → ∀ x ∈ oldTokens, x.id = y.id →
      x.status = .waiting ∧ x.ownSubscription = y.ownSubscription) :
    Indexed ((subscriptionOps oldTokens newTokens).foldl writeSubscriptions subscriptions)
      (newTokens.foldl KeyedMap.set tokens) := by
  have hsame : ∀ y ∈ newTokens, ∀ t ∈ newTokens, t.id = y.id → t = y :=
    fun y hy t ht hid => List.inj_on_of_nodup_map hnew ht hy hid
  intro id
  by_cases hin : ∃ y ∈ newTokens, y.id = id
  · obtain ⟨y, hy, rfl⟩ := hin
    rw [KeyedMap.get?_foldl_set_of_mem hnew hy, Option.bind_some]
    cases hsub : y.subscribedTo with
    | some type =>
      have hy_waits : y.status = .waiting := waiting_of_subscribedTo (by rw [hsub]; rfl)
      by_cases hw : isWaiting oldTokens y.id = true
      · -- the token has waited for the same thing before
        obtain ⟨x, hx, hid, -⟩ := (isWaiting_iff hold).1 hw
        rw [get?_subscriptionOps_other _ (fun _ _ _ _ => hw)
          (fun _ _ _ _ => (isWaiting_iff hnew).2 ⟨y, hy, rfl, hy_waits⟩), h, ← hid, hrows x hx]
        exact (hwait y hy hy_waits x hx hid).2
      · rw [get?_subscriptionOps_started hnew _ hy (by simpa using hw) hsub, Token.ownSubscription,
          hsub, Option.map_some]
    | none =>
      rw [ownSubscription_of_none hsub]
      by_cases hx : ∃ x ∈ oldTokens, x.id = y.id ∧ x.subscribedTo.isSome = true
      · obtain ⟨x, hx, hid, hxsub⟩ := hx
        have hgone : isWaiting newTokens x.id = false := by
          by_contra hw
          obtain ⟨t, ht, htid, htw⟩ := (isWaiting_iff hnew).1 (by simpa using hw)
          obtain rfl := hsame y hy t ht (htid.trans hid)
          have heq := (hwait t ht htw x hx hid).2
          rw [ownSubscription_of_none hsub, Token.ownSubscription, Option.map_eq_none_iff] at heq
          rw [heq] at hxsub
          cases hxsub
        rw [← hid, get?_subscriptionOps_stopped _ hx hxsub hgone]
      · have hnone : ∀ x ∈ oldTokens, x.id = y.id → x.subscribedTo = none := by
          intro x hxm hid
          by_contra hne
          exact hx ⟨x, hxm, hid, Option.isSome_iff_ne_none.2 hne⟩
        rw [get?_subscriptionOps_other, h]
        · cases hrow : tokens.get? y.id with
          | none => rfl
          | some row =>
            obtain ⟨x, hxm, hid⟩ := hmine y hy row (KeyedMap.mem_of_get? hrow)
              (KeyedMap.key_of_get? hrow)
            rw [← hrow, ← hid, hrows x hxm]
            exact ownSubscription_of_none (hnone x hxm hid)
        · intro t ht hid ht_sub
          rw [hsame y hy t ht hid, hsub] at ht_sub
          cases ht_sub
        · intro t ht hid ht_sub
          rw [hnone t ht hid] at ht_sub
          cases ht_sub
  · rw [KeyedMap.get?_foldl_set_of_notMem fun y hy hid => hin ⟨y, hy, hid⟩,
      get?_subscriptionOps_other, h]
    · exact fun t ht hid => absurd ⟨t, ht, hid⟩ hin
    · intro t ht hid
      obtain ⟨y, hy, hyid⟩ := hkept t ht
      exact absurd ⟨y, hy, hyid.trans hid⟩ hin

/-! ## Over the life of a store -/

variable {store store' : Store} {definitions : String → Nat → Option ProcessDefinition}

/-- The caller's diff is about subscriptions too. -/
def Caller.isRequest : Caller → Bool
  | .request _ => true
  | .worker | .timer => false

/-- A worker or a timer makes no token begin or cease to wait for an event. -/
def Change.SparesEvents : Change → Prop
  | .cycle c _ _ state result => c.caller.isRequest = false →
      startedSubscriptions state.tokens result.newState.tokens = [] ∧
        stoppedTokens state.tokens result.newState.tokens = []
  | .start _ _ | .tasks _ _ => True

variable {c : Cycle} {instanceId nextId version : Nat} {d : ProcessDefinition} {state : EngineState}
  {result : EngineResult} {ops : List StoreOperation}

/-- On such a cycle the subscriptions become what the diff of a request would make of them. -/
theorem Cycle.Done.subscriptions
    (h : c.Done definitions instanceId store d state version result ops store')
    (hspares : (Change.cycle c store d state result).SparesEvents) :
    store'.subscriptions =
      (subscriptionOps state.tokens result.newState.tokens).foldl writeSubscriptions
        store.subscriptions := by
  have hwrites := h.writes
  have hsaves := h.saves
  cases hcaller : c.caller with
  | request closes =>
    rw [hcaller] at hwrites
    simp only [Caller.storeOps, Reading.alone_bind, Reading.alone_pure, computeStoreOps,
      List.append_assoc, Bool.false_eq_true, if_false, Option.map_some, Option.getD_some] at hwrites
    rw [← hwrites] at hsaves
    have hbesides : ∀ closed : List UserTaskRecord, ∀ op ∈
        compensationOps state.compensationRecords result.newState.compensationRecords ++
          (buildUserTaskCreationOps c.firstTaskId result.events d ++ closed.map updateUserTask),
        op.table = .compensationRecords ∨ op.table = .userTasks := by
      intro closed op hop
      rcases List.mem_append.1 hop with hop | hop
      · exact .inl (compensationOps_table op hop)
      · rcases List.mem_append.1 hop with hop | hop
        · exact .inr (buildUserTaskCreationOps_table op hop)
        · obtain ⟨_, -, rfl⟩ := List.mem_map.1 hop
          exact .inr rfl
    obtain ⟨-, -, -, -, -, hsubs, -⟩ := stateOps_tables rfl (fun op hop => by
      rcases List.mem_append.1 hop with hop | hop
      · exact .inl (subscriptionOps_table op hop)
      · exact .inr (hbesides _ op hop)) hsaves
    rw [hsubs, List.foldl_append]
    refine foldl_eq_self (fun op hop m => writeSubscriptions_of_table ?_ m) _
    rcases hbesides _ op hop with htable | htable <;> rw [htable] <;> decide
  | worker | timer =>
    obtain ⟨hstarted, hstopped⟩ := hspares (by rw [hcaller]; rfl)
    rw [foldl_subscriptionOps, hstarted, hstopped]
    rw [hcaller] at hwrites
    simp only [Caller.storeOps, Reading.alone_pure, TaskWorker.buildStoreOps,
      TimerCoordinator.buildStoreOps] at hwrites
    rw [← hwrites, ← List.append_nil (stateOps _ _ _)] at hsaves
    obtain ⟨-, -, -, -, -, hsubs, -⟩ := stateOps_tables rfl (by simp [Besides]) hsaves
    exact hsubs

/-- A token that waits after a cycle and was there before has waited for the same thing. -/
theorem Continued.hasWaited {old new : EngineState} {firstId nextId nextId' : Nat}
    (h : Continued old new firstId nextId') (hold : old.Resting nextId) (hfirst : nextId ≤ firstId)
    {x y : Token} (hx : x ∈ old.tokens) (hy : y ∈ new.tokens) (hw : y.status = .waiting)
    (hid : x.id = y.id) : x.status = .waiting ∧ x.waitingFor = y.waitingFor := by
  rcases h.waiting y hy hw with hle | ⟨z, hz, hzw, hbare, hfor⟩
  · have := hold.known x hx
    omega
  · have hzy : z.erase.id = y.erase.id := Token.id_of_bare hbare
    obtain rfl : x = z := List.inj_on_of_nodup_map hold.tokenIds hx hz (hid.trans hzy.symm)
    exact ⟨hzw, hfor⟩

theorem ownSubscription_congr {x y : Token} (hid : x.id = y.id)
    (hinst : x.instanceId = y.instanceId) (hstatus : x.status = y.status)
    (hfor : x.waitingFor = y.waitingFor) : x.ownSubscription = y.ownSubscription := by
  unfold Token.ownSubscription Token.subscribedTo Token.subscription Token.messageName
    Token.signalName
  rw [hid, hinst, hstatus, hfor]

theorem Cycle.Done.indexed
    (h : c.Done definitions instanceId store d state version result ops store')
    (hsound : store.Sound nextId) (hfirst : nextId ≤ c.options.firstId)
    (hspares : (Change.cycle c store d state result).SparesEvents)
    (hindexed : Indexed store.subscriptions store.tokens) :
    Indexed store'.subscriptions store'.tokens := by
  rw [h.subscriptions hspares]
  obtain ⟨⟨row, hrow, -, rfl⟩, hcont⟩ := h.continued hsound hfirst
  obtain ⟨more, hmore, rfl⟩ := h.ops_eq
  obtain ⟨-, htokens, -⟩ := stateOps_tables rfl hmore h.saves
  have hrest := hsound.loaded c.order (reviveInstance row.data)
  rw [htokens]
  refine hindexed.diff hrest.tokenIds hcont.resting.tokenIds (fun x hx => ?_)
    (fun y hy r hr hid => ?_) (fun _ hx => hcont.keptId hx) (fun y hy hw x hx hid => ?_)
  · obtain ⟨r, hr, -, rfl⟩ := mem_loaded.1 hx
    have hget : store.tokens.get? (reviveToken r).id = some r := KeyedMap.get?_of_mem hr
    rw [hget, Option.bind_some]
    exact ownSubscription_congr rfl rfl rfl rfl
  · rcases hcont.made y hy with hold | hle
    · exact hold
    · have := (hsound.known r hr).1
      omega
  · obtain ⟨hxw, hfor⟩ := hcont.hasWaited hrest hfirst hx hy hw hid
    have hinst : x.instanceId = y.instanceId := by
      rw [hrest.tokens x hx, hcont.resting.tokens y hy, hcont.instId]
    exact ⟨hxw, ownSubscription_congr hid hinst (hxw.trans hw.symm) hfor⟩

theorem indexed_start {fuel : Nat} {vars : Option Variables}
    {correlationKey businessKey : Option String} {options : ExecuteOptions} {firstTaskId : Nat}
    (hsound : store.Sound nextId) (hfirst : nextId ≤ options.firstId)
    (h : execute d fuel (.startProcess vars correlationKey businessKey) none options = .ok result)
    (hsave : store.executeTransaction (computeStoreOps true none none result.newState ++
      buildUserTaskCreationOps firstTaskId result.events d) = .ok store')
    (hindexed : Indexed store.subscriptions store.tokens) :
    Indexed store'.subscriptions store'.tokens := by
  obtain ⟨hrest, hge, -, -⟩ := execute_start_resting h
  rw [computeStoreOps, List.append_assoc] at hsave
  obtain ⟨-, htokens, -, -, -, hsubs, -⟩ := stateOps_tables rfl besides_start hsave
  rw [List.foldl_append, List.foldl_append,
    foldl_spares writeSubscriptions_of_table compensationOps_table (by decide),
    foldl_spares writeSubscriptions_of_table buildUserTaskCreationOps_table (by decide)] at hsubs
  rw [htokens, hsubs]
  refine hindexed.diff List.nodup_nil hrest.tokenIds (by simp) (fun y hy r hr hid => ?_) (by simp)
    (by simp)
  have := (hsound.known r hr).1
  have := hge y hy
  omega

theorem Served.indexed (h : Served definitions Change.SparesEvents store nextId) :
    Indexed store.subscriptions store.tokens := by
  induction h with
  | empty => exact fun id => rfl
  | start served hid h hC hsave ih => exact indexed_start served.sound hid h hsave ih
  | cycle served hid hdone hC ih => exact hdone.indexed served.sound hid hC ih
  | tasks served htable hC hsave ih =>
    obtain ⟨-, htokens, -, -, hsubs, -⟩ := executeTransaction_tables hsave
    rw [foldl_spares writeTokens_of_table htable (by decide)] at htokens
    rw [foldl_spares writeSubscriptions_of_table htable (by decide)] at hsubs
    rw [htokens, hsubs]
    exact ih

/-! ## The correspondence -/

/-- The subscription stands for the token.  No token carries a correlation value; an empty name is
the same as none. -/
structure EventSubscription.StandsFor (s : EventSubscription) (t : Token) : Prop where
  tokenId : s.tokenId = t.id
  instanceId : s.instanceId = t.instanceId
  status : t.status = .waiting
  type : t.waitsFor s.type = true
  messageName : s.type = .message → s.messageName.getD "" = t.messageName.getD ""
  signalName : s.type = .signal → s.signalName.getD "" = t.signalName.getD ""
  correlationValue : s.correlationValue = none

/-- The token waits for a message or a signal. -/
def Token.WaitsForEvent (t : Token) : Prop :=
  t.status = .waiting ∧ (t.waitsFor .message = true ∨ t.waitsFor .signal = true)

/-- The active subscriptions and the tokens that wait for a message or a signal are in one-to-one
correspondence, and a lookup by a name finds the instances with a token that waits for it. -/
structure Store.Matched (store : Store) : Prop where
  tokens : ∀ s ∈ store.subscriptions.values, s.isActive = true →
    ∃! t, t ∈ store.tokens.values ∧ t.WaitsForEvent ∧ s.StandsFor t
  subscriptions : ∀ t ∈ store.tokens.values, t.WaitsForEvent →
    ∃! s, s ∈ store.subscriptions.values ∧ s.isActive = true ∧ s.StandsFor t
  messages : ∀ name instanceId, name ≠ "" →
    ((∃ s ∈ store.findSubscriptions { type := .message, messageName := some name },
        s.instanceId = instanceId) ↔
      ∃ t ∈ store.tokens.values, t.instanceId = instanceId ∧ t.status = .waiting ∧
        t.waitsFor .message = true ∧ t.messageName = some name)
  signals : ∀ name instanceId, name ≠ "" →
    ((∃ s ∈ store.findSubscriptions { type := .signal, signalName := some name },
        s.instanceId = instanceId) ↔
      ∃ t ∈ store.tokens.values, t.instanceId = instanceId ∧ t.status = .waiting ∧
        t.waitsFor .signal = true ∧ t.signalName = some name)

theorem subscribedTo_eq_some_iff {t : Token} {type : WaitConditionType} :
    t.subscribedTo = some type ↔
      t.status = .waiting ∧ t.waitsFor type = true ∧ (type = .message ∨ type = .signal) := by
  unfold Token.subscribedTo Token.waitsFor
  by_cases hw : t.status = .waiting
  · cases hfor : t.waitingFor with
    | none => simp [hw]
    | some condition =>
      simp only [hw, if_true, Option.map_some, Option.filter_eq_some_iff, Option.some.injEq,
        decide_eq_true_eq, Option.any_some, true_and]
  · simp [hw]

theorem waitsForEvent_iff {t : Token} : t.WaitsForEvent ↔ ∃ type, t.subscribedTo = some type := by
  constructor
  · rintro ⟨hw, hfor | hfor⟩
    · exact ⟨_, subscribedTo_eq_some_iff.2 ⟨hw, hfor, .inl rfl⟩⟩
    · exact ⟨_, subscribedTo_eq_some_iff.2 ⟨hw, hfor, .inr rfl⟩⟩
  · rintro ⟨type, htype⟩
    obtain ⟨hw, hfor, rfl | rfl⟩ := subscribedTo_eq_some_iff.1 htype
    · exact ⟨hw, .inl hfor⟩
    · exact ⟨hw, .inr hfor⟩

theorem getD_truthy (s : Option String) : (truthy s).getD "" = s.getD "" := by
  cases s with
  | none => rfl
  | some s => by_cases hs : s = "" <;> simp [truthy, Option.filter, hs]

theorem truthy_eq_some_iff {s : Option String} {name : String} (hne : name ≠ "") :
    truthy s = some name ↔ s = some name := by
  simp only [truthy, Option.filter_eq_some_iff, and_iff_left_iff_imp, decide_eq_true_eq]
  exact fun _ => hne

theorem standsFor_subscription {t : Token} {type : WaitConditionType}
    (h : t.subscribedTo = some type) : (t.subscription type).StandsFor t := by
  obtain ⟨hw, hfor, -⟩ := subscribedTo_eq_some_iff.1 h
  refine ⟨rfl, rfl, hw, hfor, fun htype => ?_, fun htype => ?_, rfl⟩
  · have htype : type = .message := htype
    simp only [Token.subscription, htype, if_true, getD_truthy]
  · have htype : type = .signal := htype
    simp only [Token.subscription, htype, if_true, getD_truthy]

/-- A subscription, and the token that calls for it. -/
theorem Indexed.mem_iff {subscriptions : KeyedMap EventSubscription.tokenId}
    {tokens : KeyedMap Token.id} (h : Indexed subscriptions tokens) {s : EventSubscription} :
    s ∈ subscriptions.values ↔
      ∃ t ∈ tokens.values, ∃ type, t.subscribedTo = some type ∧ s = t.subscription type := by
  constructor
  · intro hs
    have hget := h s.tokenId
    rw [KeyedMap.get?_of_mem hs] at hget
    obtain ⟨t, ht, hown⟩ := Option.bind_eq_some_iff.1 hget.symm
    obtain ⟨type, htype, rfl⟩ := Option.map_eq_some_iff.1 hown
    exact ⟨t, KeyedMap.mem_of_get? ht, type, htype, rfl⟩
  · rintro ⟨t, ht, type, htype, rfl⟩
    refine KeyedMap.mem_of_get? (k := t.id) ?_
    rw [h t.id, KeyedMap.get?_of_mem ht, Option.bind_some, Token.ownSubscription, htype,
      Option.map_some]

theorem mem_findSubscriptions {filter : Store.SubscriptionFilter} {s : EventSubscription} :
    s ∈ store.findSubscriptions filter ↔ s ∈ store.subscriptions.values ∧ s.isActive = true ∧
      s.type = filter.type ∧ (∀ name, filter.messageName = some name → s.messageName = some name) ∧
      (∀ name, filter.signalName = some name → s.signalName = some name) ∧
      (∀ value, filter.correlationValue = some value → s.correlationValue = some value) := by
  simp [Store.findSubscriptions, Option.all_eq_true]

theorem matched_of_indexed (h : Indexed store.subscriptions store.tokens) : store.Matched where
  tokens s hs _ := by
    obtain ⟨t, ht, type, htype, rfl⟩ := h.mem_iff.1 hs
    refine ⟨t, ⟨ht, waitsForEvent_iff.2 ⟨type, htype⟩, standsFor_subscription htype⟩, ?_⟩
    rintro t' ⟨ht', -, hfor⟩
    exact KeyedMap.eq_of_key_eq ht' ht hfor.tokenId.symm
  subscriptions t ht hw := by
    obtain ⟨type, htype⟩ := waitsForEvent_iff.1 hw
    refine ⟨t.subscription type, ⟨h.mem_iff.2 ⟨t, ht, type, htype, rfl⟩, rfl,
      standsFor_subscription htype⟩, ?_⟩
    rintro s ⟨hs, -, hfor⟩
    exact KeyedMap.eq_of_key_eq hs (h.mem_iff.2 ⟨t, ht, type, htype, rfl⟩) hfor.tokenId
  messages name instanceId hne := by
    constructor
    · rintro ⟨s, hs, rfl⟩
      obtain ⟨hs, -, hs_type, hs_name, -⟩ := mem_findSubscriptions.1 hs
      obtain ⟨t, ht, type, htype, rfl⟩ := h.mem_iff.1 hs
      obtain rfl : type = .message := hs_type
      obtain ⟨hw, hfor, -⟩ := subscribedTo_eq_some_iff.1 htype
      have hname : truthy t.messageName = some name := hs_name name rfl
      exact ⟨t, ht, rfl, hw, hfor, (truthy_eq_some_iff hne).1 hname⟩
    · rintro ⟨t, ht, rfl, hw, hfor, hname⟩
      have htype := subscribedTo_eq_some_iff.2 ⟨hw, hfor, .inl rfl⟩
      refine ⟨t.subscription .message, mem_findSubscriptions.2
        ⟨h.mem_iff.2 ⟨t, ht, _, htype, rfl⟩, rfl, rfl, ?_, nofun, nofun⟩, rfl⟩
      rintro _ ⟨⟩
      exact (truthy_eq_some_iff hne).2 hname
  signals name instanceId hne := by
    constructor
    · rintro ⟨s, hs, rfl⟩
      obtain ⟨hs, -, hs_type, -, hs_name, -⟩ := mem_findSubscriptions.1 hs
      obtain ⟨t, ht, type, htype, rfl⟩ := h.mem_iff.1 hs
      obtain rfl : type = .signal := hs_type
      obtain ⟨hw, hfor, -⟩ := subscribedTo_eq_some_iff.1 htype
      have hname : truthy t.signalName = some name := hs_name name rfl
      exact ⟨t, ht, rfl, hw, hfor, (truthy_eq_some_iff hne).1 hname⟩
    · rintro ⟨t, ht, rfl, hw, hfor, hname⟩
      have htype := subscribedTo_eq_some_iff.2 ⟨hw, hfor, .inr rfl⟩
      refine ⟨t.subscription .signal, mem_findSubscriptions.2
        ⟨h.mem_iff.2 ⟨t, ht, _, htype, rfl⟩, rfl, rfl, nofun, ?_, nofun⟩, rfl⟩
      rintro _ ⟨⟩
      exact (truthy_eq_some_iff hne).2 hname

/-- As long as no worker and no timer makes a token begin or cease to wait for an event,
subscriptions and waiting tokens match. -/
theorem Served.matched (h : Served definitions Change.SparesEvents store nextId) : store.Matched :=
  matched_of_indexed h.indexed

open Diagram

/-- A message event, waited for from the start. -/
def letter : ProcessDefinition :=
  definition [.between "in" "start" "letter", .between "out" "letter" "end"]
    [start [.between "in" "start" "letter"] "start",
      catchEvent [.between "out" "letter" "end"] "letter"
        { type := .message, messageName := some "letter" },
      finish [] "end" .none]

/-- The letter is found while it is waited for, and not any more when it has come. -/
theorem matched_letter : ∃ store nextId store', Store.opened letter always = some (store, nextId) ∧
    ((requestDelivers "letter" 10).program (fun _ _ => some letter) 0).perform store = some store' ∧
      store.Matched ∧ store'.Matched := by
  have hruns : (Store.opened letter always).any (fun (store, nextId) => nextId ≤ 10 ∧
      (((requestDelivers "letter" 10).program (fun _ _ => some letter) 0).perform store).isSome =
        true) = true := by decide +kernel
  obtain ⟨⟨store, nextId⟩, hopened, hfacts⟩ := (Option.any_eq_true ..).1 hruns
  simp only [decide_eq_true_eq] at hfacts
  obtain ⟨hid, hsome⟩ := hfacts
  obtain ⟨store', hperform⟩ := Option.isSome_iff_exists.1 hsome
  have hserved : Served (fun _ _ => some letter) Change.SparesEvents store nextId :=
    served_opened (fun _ _ => trivial) hopened
  obtain ⟨nextId', hserved'⟩ := hserved.perform hid
    (fun _ _ _ _ hworker => absurd hworker (by decide)) hperform
  exact ⟨store, nextId, store', hopened, hperform, Served.matched hserved, Served.matched hserved'⟩

/-- When a worker completes the task before the message event, the token that now waits for the
message has no subscription. -/
theorem not_matched_inquiry :
    ∃ store nextId store', Store.opened inquiry always = some (store, nextId) ∧
    ((workerCompletes 3 10).program (fun _ _ => some inquiry) 0).perform store = some store' ∧
      (∃ nextId', Served (fun _ _ => some inquiry) (fun _ => True) store' nextId') ∧
        ¬ store'.Matched := by
  have hruns : (Store.opened inquiry always).any (fun (store, nextId) => nextId ≤ 10 ∧
      (((workerCompletes 3 10).program (fun _ _ => some inquiry) 0).perform store).any
        (fun store' => store'.subscriptions.values = [] ∧ ∃ t ∈ store'.tokens.values,
          t.status = .waiting ∧ t.waitsFor .message = true) = true) = true := by decide +kernel
  obtain ⟨⟨store, nextId⟩, hopened, hfacts⟩ := (Option.any_eq_true ..).1 hruns
  simp only [decide_eq_true_eq] at hfacts
  obtain ⟨hid, hafter⟩ := hfacts
  obtain ⟨store', hperform, hfacts⟩ := (Option.any_eq_true ..).1 hafter
  simp only [decide_eq_true_eq] at hfacts
  obtain ⟨hnone, t, ht, hw, hfor⟩ := hfacts
  have hserved : Served (fun _ _ => some inquiry) (fun _ => True) store nextId :=
    served_opened (fun _ _ => trivial) hopened
  refine ⟨store, nextId, store', hopened, hperform,
    hserved.perform hid (fun _ _ _ _ => trivial) hperform, fun hmatched => ?_⟩
  obtain ⟨s, ⟨hs, -⟩, -⟩ := hmatched.subscriptions t ht ⟨hw, .inl hfor⟩
  rw [hnone] at hs
  cases hs

end NexusWorkflow
