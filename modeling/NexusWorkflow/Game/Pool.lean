import NexusWorkflow.Model.Engine
import NexusWorkflow.Lib.Checked

/-!
# The token pool

What a cycle does to tokens, without time stamps, variables and events: a `Pool` holds the tokens of
the instance, the queue, the join states, the compensation records, the ids reported as cancelled
and the status of the instance.  Four operations change its tokens: `put` (a new version of a
token), `finish`, `cancelAll` and `spawn`.  `ExecutionContext.pool` reads the pool off a context,
and the lemmas `pool_…` say what each operation of the context does to it.
-/

namespace NexusWorkflow

/-- The token without its time stamps. -/
def Token.erase (t : Token) : Token := { t with createdAt := 0, updatedAt := 0 }

namespace Token

variable (t : Token)

@[simp] theorem id_erase : t.erase.id = t.id := rfl
@[simp] theorem instanceId_erase : t.erase.instanceId = t.instanceId := rfl
@[simp] theorem elementId_erase : t.erase.elementId = t.elementId := rfl
@[simp] theorem elementType_erase : t.erase.elementType = t.elementType := rfl
@[simp] theorem status_erase : t.erase.status = t.status := rfl
@[simp] theorem scopeId_erase : t.erase.scopeId = t.scopeId := rfl
@[simp] theorem arrivedViaFlowId_erase : t.erase.arrivedViaFlowId = t.arrivedViaFlowId := rfl
@[simp] theorem parentTokenId_erase : t.erase.parentTokenId = t.parentTokenId := rfl
@[simp] theorem subProcessInstanceId_erase :
    t.erase.subProcessInstanceId = t.subProcessInstanceId := rfl
@[simp] theorem waitingFor_erase : t.erase.waitingFor = t.waitingFor := rfl
@[simp] theorem loopState_erase : t.erase.loopState = t.loopState := rfl
@[simp] theorem hostTaskId_erase : t.erase.hostTaskId = t.hostTaskId := rfl
@[simp] theorem messageName_erase : t.erase.messageName = t.messageName := rfl
@[simp] theorem signalName_erase : t.erase.signalName = t.signalName := rfl
@[simp] theorem live_erase : t.erase.live = t.live := rfl
@[simp] theorem waitsFor_erase (type : WaitConditionType) :
    t.erase.waitsFor type = t.waitsFor type := rfl
@[simp] theorem erase_erase : t.erase.erase = t.erase := rfl

/-- The token has come to its end. -/
def Finished : Prop := t.status = .completed ∨ t.status = .cancelled

instance : Decidable t.Finished := inferInstanceAs (Decidable (_ ∨ _))

@[simp] theorem finished_erase : t.erase.Finished ↔ t.Finished := Iff.rfl

theorem live_iff : t.live ↔ t.status = .active ∨ t.status = .waiting := by
  simp [live]

theorem not_live_of_finished {t : Token} (h : t.Finished) : t.live = false := by
  rcases h with h | h <;> simp [live, h]

end Token

/-- A token as `createToken` makes it, without time stamps. -/
def newToken (id instanceId : Nat) (elementId : String) (elementType : BpmnElementType)
    (scopeId : Nat) (via : Option String := none) (parent : Option Nat := none)
    (tag : Option String := none) : Token :=
  { id, instanceId, elementId, elementType, status := .active, scopeId, arrivedViaFlowId := via,
    parentTokenId := parent, subProcessInstanceId := tag, createdAt := 0, updatedAt := 0 }

/-- The ids of the tokens that events report as cancelled. -/
def cancelledIds (events : List ExecutionEvent) : List Nat :=
  events.filterMap fun
    | .tokenCancelled _ tokenId _ => some tokenId
    | _ => none

structure Pool where
  tokens : List Token
  pending : List Token
  joins : KeyedMap GatewayJoinState.gatewayId
  records : List CompensationRecord
  cancelled : List Nat
  nextId : Nat
  status : Option InstanceStatus

namespace Pool

variable (P : Pool)

def ids : List Nat := P.tokens.map (·.id)

/-- The new version of a token. -/
def update (t x : Token) : Token := if x.id = t.id then t else x

def put (t : Token) : Pool := { P with tokens := P.tokens.map (update t) }

def finish (t : Token) : Pool := P.put { t with status := .completed }

/-- A token, cancelled if it is one of those chosen. -/
def kill (p : Token → Bool) (x : Token) : Token :=
  if p x then { x with status := .cancelled } else x

/-- Cancel all tokens chosen by `p`, and report it. -/
def cancelAll (p : Token → Bool) : Pool :=
  { P with
    tokens := P.tokens.map (kill p)
    cancelled := P.cancelled ++ (P.tokens.filter p).map (·.id) }

/-- New tokens, all of them pending; `n` is the next unused id. -/
def spawn (news : List Token) (n : Nat) : Pool :=
  { P with tokens := P.tokens ++ news, pending := P.pending ++ news, nextId := n }

/-- Active tokens with distinct unused ids below `n`. -/
structure Fresh (news : List Token) (n : Nat) : Prop where
  nodup : (news.map (·.id)).Nodup
  active : ∀ t ∈ news, t.status = .active
  ge : ∀ t ∈ news, P.nextId ≤ t.id
  lt : ∀ t ∈ news, t.id < n
  le : P.nextId ≤ n

/-- All ids are below the next unused one. -/
def Numbered : Prop := ∀ t ∈ P.tokens, t.id < P.nextId

variable {P}

@[simp] theorem id_update (t x : Token) : (update t x).id = x.id := by
  unfold update
  split_ifs with h
  · exact h.symm
  · rfl

@[simp] theorem id_kill (p : Token → Bool) (x : Token) : (kill p x).id = x.id := by
  unfold kill
  split_ifs <;> rfl

@[simp] theorem ids_put (t : Token) : (P.put t).ids = P.ids := by
  simp [ids, put, Function.comp_def]

@[simp] theorem ids_cancelAll (p : Token → Bool) : (P.cancelAll p).ids = P.ids := by
  simp [ids, cancelAll, Function.comp_def]

/-- A token after a put: the new version, or another token as it was. -/
theorem mem_put {t x : Token} (hx : x ∈ (P.put t).tokens) : x = t ∨ x ∈ P.tokens ∧ x.id ≠ t.id := by
  obtain ⟨y, hy, rfl⟩ := List.mem_map.1 hx
  unfold update
  split_ifs with hid
  · exact Or.inl rfl
  · exact Or.inr ⟨hy, hid⟩

theorem mem_put_of_ne {t x : Token} (hx : x ∈ P.tokens) (hid : x.id ≠ t.id) :
    x ∈ (P.put t).tokens :=
  List.mem_map.2 ⟨x, hx, if_neg hid⟩

/-- A token after a cancellation: one that was not chosen, or one that is cancelled now. -/
theorem mem_cancelAll {p : Token → Bool} {x : Token} (hx : x ∈ (P.cancelAll p).tokens) :
    x ∈ P.tokens ∧ p x = false ∨ ∃ y ∈ P.tokens, p y = true ∧
      x = { y with status := .cancelled } := by
  obtain ⟨y, hy, rfl⟩ := List.mem_map.1 hx
  unfold kill
  by_cases hp : p y
  · rw [if_pos hp]
    exact Or.inr ⟨y, hy, hp, rfl⟩
  · rw [if_neg hp]
    exact Or.inl ⟨hy, Bool.eq_false_iff.2 hp⟩

theorem mem_cancelAll_of_not {p : Token → Bool} {x : Token} (hx : x ∈ P.tokens) (hp : p x = false) :
    x ∈ (P.cancelAll p).tokens :=
  List.mem_map.2 ⟨x, hx, by simp [kill, hp]⟩

theorem fresh_nil : P.Fresh [] P.nextId where
  nodup := List.nodup_nil
  active := by simp
  ge := by simp
  lt := by simp
  le := le_refl _

theorem Fresh.append {news more : List Token} {n m : Nat} (h : P.Fresh news n)
    (h' : (P.spawn news n).Fresh more m) : P.Fresh (news ++ more) m where
  nodup := by
    rw [List.map_append, List.nodup_append]
    refine ⟨h.nodup, h'.nodup, ?_⟩
    rintro a ha b hb rfl
    obtain ⟨x, hx, rfl⟩ := List.mem_map.1 ha
    obtain ⟨y, hy, hxy⟩ := List.mem_map.1 hb
    have h1 := h.lt x hx
    have h2 : n ≤ y.id := h'.ge y hy
    omega
  active t ht := (List.mem_append.1 ht).elim (h.active t) (h'.active t)
  ge t ht := (List.mem_append.1 ht).elim (h.ge t) fun hm => h.le.trans (h'.ge t hm)
  lt t ht := (List.mem_append.1 ht).elim (fun hm => (h.lt t hm).trans_le h'.le) (h'.lt t)
  le := h.le.trans h'.le

theorem spawn_spawn (news more : List Token) (n m : Nat) :
    (P.spawn news n).spawn more m = P.spawn (news ++ more) m := by
  simp [spawn]

theorem spawn_nil_self : P.spawn [] P.nextId = P := by
  simp [spawn]

theorem Numbered.put (h : P.Numbered) (t : Token) : (P.put t).Numbered := by
  intro x hx
  obtain ⟨y, hy, rfl⟩ := List.mem_map.1 hx
  rw [id_update]
  exact h y hy

theorem Numbered.cancelAll (h : P.Numbered) (p : Token → Bool) : (P.cancelAll p).Numbered := by
  intro x hx
  obtain ⟨y, hy, rfl⟩ := List.mem_map.1 hx
  rw [id_kill]
  exact h y hy

theorem Numbered.spawn (h : P.Numbered) {l : List Token} {n : Nat} (hf : P.Fresh l n) :
    (P.spawn l n).Numbered := by
  intro t ht
  rcases List.mem_append.1 ht with ht | ht
  · exact (h t ht).trans_le hf.le
  · exact hf.lt t ht

end Pool

theorem numbered_of_tokens {P Q : Pool} (h : P.Numbered) (ht : Q.tokens = P.tokens)
    (hn : Q.nextId = P.nextId) : Q.Numbered := by
  rw [Pool.Numbered, ht, hn]
  exact h

/-! ## The pool of a context -/

def ExecutionContext.pool (ctx : ExecutionContext) : Pool where
  tokens := ctx.tokenMap.values.map Token.erase
  pending := ctx.pendingQueue.map Token.erase
  joins := ctx.joinStateMap
  records := ctx.compensationList
  cancelled := cancelledIds ctx.events
  nextId := ctx.nextId
  status := ctx.inst.map (·.status)

namespace ExecutionContext

variable (ctx : ExecutionContext)

theorem mem_pool {t : Token} (h : t ∈ ctx.tokenMap.values) : t.erase ∈ ctx.pool.tokens :=
  List.mem_map_of_mem h

theorem nodup_pool : ctx.pool.ids.Nodup := by
  have := ctx.tokenMap.nodup
  simpa [Pool.ids, pool, Function.comp_def] using this

@[simp] theorem pool_now : ctx.now.2.pool = ctx.pool := rfl

@[simp] theorem pool_saveScope (scope : VariableScope) : (ctx.saveScope scope).pool = ctx.pool :=
  rfl

theorem pool_setInstance (inst : ProcessInstance) :
    (ctx.setInstance inst).pool = { ctx.pool with status := some inst.status } := rfl

theorem pool_emit (event : ExecutionEvent) :
    (ctx.emit event).pool =
      { ctx.pool with cancelled := ctx.pool.cancelled ++ cancelledIds [event] } := by
  simp [emit, pool, cancelledIds, List.filterMap_append]

/-- An event that reports no cancelled token. -/
theorem pool_emit_of_cancelledIds {event : ExecutionEvent} (h : cancelledIds [event] = []) :
    (ctx.emit event).pool = ctx.pool := by
  rw [pool_emit, h, List.append_nil]

theorem pool_updateToken {t : Token} (h : t.id ∈ ctx.pool.ids) :
    (ctx.updateToken t).pool = ctx.pool.put t.erase := by
  have hm : t.id ∈ ctx.tokenMap.values.map Token.id := by
    simpa [Pool.ids, pool] using h
  simp only [updateToken, pool, Pool.put, KeyedMap.values_set_of_mem hm, List.map_map]
  congr 1
  apply List.map_congr_left
  intro x _
  by_cases hx : x.id = t.id <;> simp [KeyedMap.replace, Pool.update, hx]

theorem pool_setStatus {token : Token} (status : TokenStatus) (h : token.id ∈ ctx.pool.ids) :
    (ctx.setStatus token status).pool = ctx.pool.put { token.erase with status } :=
  pool_updateToken ctx.now.2 h

theorem pool_suspend {token : Token} (condition : WaitCondition) (h : token.id ∈ ctx.pool.ids) :
    (suspendTokenWithCondition ctx token condition).pool =
      ctx.pool.put { token.erase with status := .waiting, waitingFor := some condition } := by
  unfold suspendTokenWithCondition
  simp only [now]
  rw [pool_emit_of_cancelledIds _ rfl]
  exact pool_updateToken ctx.now.2 h

end ExecutionContext

end NexusWorkflow
