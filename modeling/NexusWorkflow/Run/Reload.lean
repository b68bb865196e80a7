import NexusWorkflow.Game.Ownership
import NexusWorkflow.Run.Run

/-!
# A call on a loaded state

A state that was put together from the rows of a store need not be one that a run has led to.  It is
enough that its tokens are at rest: then a call makes new tokens under new ids, and a token that
waits before and after the call waits for the same thing.
-/

namespace NexusWorkflow

open ExecutionContext

variable {d : ProcessDefinition}

/-! ## Growth -/

/-- Whatever is new has an id from `n` on. -/
structure Pool.Grows (n : Nat) (P Q : Pool) : Prop where
  tokens : ∀ t ∈ Q.tokens, t.id ∈ P.ids ∨ n ≤ t.id
  pending : ∀ t ∈ Q.pending, t.id ∈ P.pending.map (·.id) ∨ n ≤ t.id
  next : P.nextId ≤ Q.nextId

namespace Pool.Grows

variable {n : Nat} {P Q R P' : Pool}

theorem refl (P : Pool) : P.Grows n P :=
  ⟨fun _ ht => .inl (List.mem_map_of_mem ht), fun _ ht => .inl (List.mem_map_of_mem ht), le_refl _⟩

theorem trans (h : P.Grows n Q) (h' : Q.Grows n R) : P.Grows n R where
  tokens t ht := by
    rcases h'.tokens t ht with hid | hle
    · obtain ⟨x, hx, hxt⟩ := List.mem_map.1 hid
      have hxt : x.id = t.id := hxt
      rw [← hxt]
      exact h.tokens x hx
    · exact .inr hle
  pending t ht := by
    rcases h'.pending t ht with hid | hle
    · obtain ⟨x, hx, hxt⟩ := List.mem_map.1 hid
      have hxt : x.id = t.id := hxt
      rw [← hxt]
      exact h.pending x hx
    · exact .inr hle
  next := h.next.trans h'.next

theorem of_frame (h : Frame P Q) : P.Grows n Q where
  tokens _ ht := .inl (h.ids ▸ List.mem_map_of_mem ht)
  pending _ ht := .inl (h.pending ▸ List.mem_map_of_mem ht)
  next := h.nextId ▸ le_refl _

theorem of_spawned {α : Type} {T : α → Token → Prop} {items : List α} (hn : n ≤ P.nextId)
    (h : Spawned T items P P') : P.Grows n P' := by
  obtain ⟨news, m, -, hfresh, rfl⟩ := h
  refine ⟨fun t ht => ?_, fun t ht => ?_, hfresh.le⟩
  · rcases List.mem_append.1 ht with ht | ht
    · exact .inl (List.mem_map_of_mem ht)
    · exact .inr (hn.trans (hfresh.ge t ht))
  · rcases List.mem_append.1 ht with ht | ht
    · exact .inl (List.mem_map_of_mem ht)
    · exact .inr (hn.trans (hfresh.ge t ht))

theorem framed {items : List Origin} (hn : n ≤ P.nextId) (hf : Frame P Q)
    (h : Spawned (Made d) items Q P') : P.Grows n P' :=
  (of_frame hf).trans (of_spawned (hf.nextId ▸ hn) h)

theorem resumes {targets : List Token} (hP : P.Coherent []) (hn : n ≤ P.nextId)
    (h : Resumes d targets P P') : P.Grows n P' := by
  induction h with
  | nil P => exact refl P
  | skip _ _ _ ih => exact ih hP hn
  | resume hw hwaiting hresume hmade _ ih =>
    have hone := framed hn (hresume.frame hP.nodup (holds_of_mem hw)) hmade
    exact hone.trans (ih ((hresume.ready hP hw hwaiting).spawned hmade) (hn.trans hone.next))

theorem commanded {command : EngineCommand} (hP : P.Coherent []) (hn : n ≤ P.nextId)
    (h : Commanded d P command P') : P.Grows n P' := by
  cases h with
  | deed hdeed hmade => exact framed hn (hdeed.frame hP.nodup) hmade
  | deliverMessage _ _ hres | broadcastSignal _ _ hres => exact resumes hP hn hres

theorem turned {t : Token} (hP : P.Coherent [t]) (hn : n ≤ P.nextId) (h : Turned d P t P') :
    P.Grows n P' := by
  obtain ⟨Q, origins, hturn, hmade⟩ := h
  exact framed hn (hturn.frame hP.nodup (hP.holds List.mem_cons_self)) hmade

/-- A token does not come into the queue again. -/
theorem notPending {i : Nat} (h : P.Grows P.nextId Q) (hi : i < P.nextId)
    (hnot : i ∉ P.pending.map (·.id)) : i ∉ Q.pending.map (·.id) := by
  intro hmem
  obtain ⟨x, hx, rfl⟩ := List.mem_map.1 hmem
  rcases h.pending x hx with hid | hle
  · exact hnot hid
  · omega

end Pool.Grows

/-- The token in hand is not in the queue. -/
theorem Pool.Coherent.hand_notPending {P : Pool} {t : Token} (h : P.Coherent [t]) :
    t.id < P.nextId ∧ t.id ∉ P.pending.map (·.id) := by
  constructor
  · obtain ⟨x, hx, hbare⟩ := Pool.holds_iff.1 (h.holds List.mem_cons_self)
    have hlt := h.numbered x hx
    rw [Token.id_of_bare hbare] at hlt
    exact hlt
  · have hnodup := h.flightNodup
    rw [Pool.flight, List.cons_append, List.map_cons, List.nodup_cons] at hnodup
    exact hnodup.1

/-! ## What becomes of the tokens in a call -/

/-- In the course of a call: `old` was the pool at its beginning, when the queue was empty and `n`
the next id. -/
structure Pool.Since (n : Nat) (P old : Pool) : Prop where
  next : n ≤ P.nextId
  tokens : ∀ t ∈ P.tokens, t.id ∈ old.ids ∨ n ≤ t.id
  pending : ∀ t ∈ P.pending, n ≤ t.id
  /-- What waits is new, or has waited for the same thing all along. -/
  waiting : ∀ y ∈ P.tokens, y.status = .waiting → n ≤ y.id ∨
    ∃ x ∈ old.tokens, x.status = .waiting ∧ x.bare = y.bare ∧ x.waitingFor = y.waitingFor

namespace Pool.Since

variable {n : Nat} {old P P' : Pool}

theorem commanded {command : EngineCommand} (hold : old.Coherent []) (hpending : old.pending = [])
    (hn : n = old.nextId) (h : Commanded d old command P') : P'.Since n old := by
  have hgrows := Grows.commanded hold (le_of_eq hn) h
  refine ⟨hn ▸ hgrows.next, hgrows.tokens, fun t ht => ?_, fun y hy hw => ?_⟩
  · rcases hgrows.pending t ht with hid | hle
    · simp [hpending] at hid
    · exact hle
  · exact .inr (h.stillWaiting y hy hw)

theorem turned {t : Token} (hP : P.Coherent [t]) (h : (P.push t).Since n old)
    (hturned : Turned d P t P') : P'.Since n old := by
  have hn : n ≤ P.nextId := h.next
  have hgrows := Grows.turned hP hn hturned
  refine ⟨hn.trans hgrows.next, fun x hx => ?_, fun x hx => ?_, fun y hy hw => ?_⟩
  · rcases hgrows.tokens x hx with hid | hle
    · obtain ⟨z, hz, hzx⟩ := List.mem_map.1 hid
      have hzx : z.id = x.id := hzx
      rw [← hzx]
      exact h.tokens z hz
    · exact .inr hle
  · rcases hgrows.pending x hx with hid | hle
    · obtain ⟨z, hz, hzx⟩ := List.mem_map.1 hid
      have hzx : z.id = x.id := hzx
      rw [← hzx]
      exact h.pending z (List.mem_cons_of_mem _ hz)
    · exact hle
  · obtain ⟨Q, origins, hturn, hmade⟩ := hturned
    obtain ⟨z, hz, hzw, hbare, hfor⟩ := hmade.stillWaiting y hy hw
    rcases hturn.waiting hz hzw with ⟨x, hx, hxw, hbare', hfor'⟩ | ⟨_, _, _, _, -, -, rfl⟩
    · rcases h.waiting x hx hxw with hle | ⟨v, hv, hvw, hvbare, hvfor⟩
      · rw [← Token.id_of_bare hbare, ← Token.id_of_bare hbare']
        exact .inl hle
      · exact .inr ⟨v, hv, hvw, (hvbare.trans hbare').trans hbare, (hvfor.trans hfor').trans hfor⟩
    · -- the token in hand is new, and now it waits
      have hid : t.id = y.id := Token.id_of_bare hbare
      rw [← hid]
      exact .inl (h.pending t List.mem_cons_self)

end Pool.Since

/-! ## States at rest -/

/-- Rows of the instance, ids below the next one, no token on its way, and the parents are there. -/
structure EngineState.Resting (state : EngineState) (nextId : Nat) : Prop extends state.Owned where
  tokenIds : (state.tokens.map (·.id)).Nodup
  known : ∀ t ∈ state.tokens, t.id < nextId
  still : ∀ t ∈ state.tokens, t.status ≠ .active ∧ t.status ≠ .suspended
  parents : ∀ t ∈ state.tokens, ∀ p, t.parentTokenId = some p →
    p < t.id ∧ ∃ x ∈ state.tokens, x.id = p

namespace EngineState.Resting

variable {state : EngineState} {nextId : Nat} {options : ExecuteOptions}

theorem tokenMap (h : state.Resting nextId) (options : ExecuteOptions) :
    (ExecutionContext.create (some state) options).tokenMap.values = state.tokens :=
  KeyedMap.values_ofList h.tokenIds

theorem coherent (h : state.Resting nextId) (hn : nextId ≤ options.firstId) :
    (ExecutionContext.create (some state) options).pool.Coherent [] := by
  have htokens : (ExecutionContext.create (some state) options).pool.tokens =
      state.tokens.map Token.erase := by
    rw [ExecutionContext.pool, h.tokenMap]
  have hflight : (ExecutionContext.create (some state) options).pool.flight [] = [] := rfl
  refine ⟨nodup_pool _, fun t ht => ?_, by rw [hflight]; exact List.nodup_nil, by simp [hflight],
    fun t ht hactive => ?_, fun t ht => ?_, fun t ht p hp => ?_⟩
  all_goals
    rw [htokens] at ht
    obtain ⟨x, hx, rfl⟩ := List.mem_map.1 ht
  · exact (h.known x hx).trans_le hn
  · exact absurd hactive (h.still x hx).1
  · exact (h.still x hx).2
  · obtain ⟨hlt, y, hy, hid⟩ := h.parents x hx p hp
    refine ⟨?_, hlt, by simp [hflight]⟩
    rw [Pool.ids, htokens]
    exact List.mem_map.2 ⟨y.erase, List.mem_map_of_mem hy, hid⟩

end EngineState.Resting

/-- The state of a context whose queue is empty is at rest. -/
theorem resting_toState {ctx : ExecutionContext} {inst : ProcessInstance}
    (hcoh : ctx.pool.Coherent []) (hqueue : ctx.pendingQueue = [])
    (howned : (ctx.toState inst).Owned) : (ctx.toState inst).Resting ctx.nextId := by
  have hflight : ctx.pool.flight [] = [] := by simp [Pool.flight, pool, hqueue]
  refine ⟨howned, ctx.tokenMap.nodup, fun t ht => hcoh.numbered t.erase (ctx.mem_pool ht),
    fun t ht => ⟨fun hactive => ?_, hcoh.notSuspended t.erase (ctx.mem_pool ht)⟩, fun t ht p hp =>
      ?_⟩
  · have hmem := hcoh.active _ (ctx.mem_pool ht) hactive
    rw [hflight] at hmem
    cases hmem
  · obtain ⟨hid, hlt, -⟩ := hcoh.parents _ (ctx.mem_pool ht) p hp
    refine ⟨hlt, ?_⟩
    obtain ⟨y, hy, hyp⟩ := List.mem_map.1 hid
    obtain ⟨x, hx, rfl⟩ := List.mem_map.1 hy
    exact ⟨x, hx, hyp⟩

/-! ## The call -/

/-- What a call does to the tokens of a state at rest. -/
structure Continued (old new : EngineState) (firstId nextId : Nat) : Prop where
  resting : new.Resting nextId
  next : firstId ≤ nextId
  inst : new.inst.core = old.inst.core
  kept : ∀ t ∈ old.tokens, ∃ t' ∈ new.tokens, t'.erase.bare = t.erase.bare
  made : ∀ t' ∈ new.tokens, (∃ t ∈ old.tokens, t.id = t'.id) ∨ firstId ≤ t'.id
  waiting : ∀ y ∈ new.tokens, y.status = .waiting → firstId ≤ y.id ∨
    ∃ x ∈ old.tokens, x.status = .waiting ∧ x.erase.bare = y.erase.bare ∧
      x.waitingFor = y.waitingFor

theorem Continued.instId {old new : EngineState} {firstId nextId : Nat}
    (h : Continued old new firstId nextId) : new.inst.id = old.inst.id := by
  have hid := congrArg ProcessInstance.id h.inst
  exact hid

theorem Continued.keptId {old new : EngineState} {firstId nextId : Nat}
    (h : Continued old new firstId nextId) {t : Token} (ht : t ∈ old.tokens) :
    ∃ t' ∈ new.tokens, t'.id = t.id := by
  obtain ⟨t', ht', hbare⟩ := h.kept t ht
  have hid : t'.erase.id = t.erase.id := Token.id_of_bare hbare
  exact ⟨t', ht', hid⟩

variable {fuel : Nat} {options : ExecuteOptions} {result : EngineResult}

theorem execute_continued {command : EngineCommand} {state : EngineState} {nextId : Nat}
    (hgoes : command.goesOn = true) (hrest : state.Resting nextId) (hn : nextId ≤ options.firstId)
    (h : execute d fuel command (some state) options = .ok result) :
    Continued state result.newState options.firstId result.nextId := by
  have hcoh := hrest.coherent hn
  have htokens := hrest.tokenMap options
  obtain ⟨ctx, inst, hsince, hcoh', hqueue, hinst, hstate, -, hnext⟩ :=
    execute_keeps (I := fun ctx => ctx.pool.Since options.firstId
      (ExecutionContext.create (some state) options).pool) (C := fun _ => True) hcoh h
      (fun _ _ => trivial)
      (fun after _ hok => .commanded hcoh rfl rfl (handleCommand_commanded hcoh.numbered hok))
      fun before t after _ hhand hI hok =>
        Pool.Since.turned (P := before.pool) hhand hI (processToken_turned hhand hok)
  obtain ⟨ctx₂, inst₂, heffects, -, hinst₂, hstate₂, -, -⟩ :=
    execute_effects ⟨True, True, False⟩ trivial hgoes
      ⟨fun _ => hcoh.numbered, False.elim⟩ h
  have hstart : (ExecutionContext.create (some state) options).Owned :=
    ⟨state.inst, rfl, fun t ht => hrest.tokens t (htokens ▸ ht),
      fun s hs => hrest.joins s (KeyedMap.mem_of_mem_ofList hs), hrest.records⟩
  obtain ⟨inst₃, hinst₃, howned⟩ := heffects.owned hcoh.numbered hstart
  obtain rfl : inst₃ = inst₂ := Option.some.inj (hinst₃.symm.trans hinst₂)
  obtain ⟨-, hkeep⟩ := heffects.keeps trivial hcoh.numbered
  have hold : ∀ {i : Nat}, i ∈ (ExecutionContext.create (some state) options).pool.ids →
      ∃ t ∈ state.tokens, t.id = i := by
    intro i hi
    obtain ⟨y, hy, rfl⟩ := List.mem_map.1 hi
    obtain ⟨x, hx, rfl⟩ := List.mem_map.1 hy
    exact ⟨x, htokens ▸ hx, rfl⟩
  rw [← hstate₂, hstate] at howned
  have hresting := resting_toState hcoh' hqueue howned
  rw [← hstate, ← hnext] at hresting
  refine ⟨hresting, hnext ▸ hsince.next, execute_core hgoes h, fun t ht => ?_, fun t ht => ?_,
    fun y hy hw => ?_⟩
  · rw [← htokens] at ht
    obtain ⟨x, hx, hbare⟩ := holds_iff_values.1 (hkeep t (Pool.holds_of_mem (mem_pool _ ht)))
    exact ⟨x, hstate₂ ▸ hx, hbare⟩
  · rw [hstate] at ht
    exact (hsince.tokens _ (ctx.mem_pool ht)).imp_left hold
  · rw [hstate] at hy
    rcases hsince.waiting _ (ctx.mem_pool hy) hw with hle | ⟨z, hz, hzw, hbare, hfor⟩
    · exact .inl hle
    · obtain ⟨x, hx, rfl⟩ := List.mem_map.1 hz
      exact .inr ⟨x, htokens ▸ hx, hzw, hbare, hfor⟩

/-- The first call of an instance. -/
theorem execute_start_resting {vars : Option Variables} {correlationKey businessKey : Option String}
    (h : execute d fuel (.startProcess vars correlationKey businessKey) none options = .ok result) :
    result.newState.Resting result.nextId ∧ (∀ t ∈ result.newState.tokens, options.firstId ≤ t.id) ∧
      result.newState.inst.id = options.firstId ∧ options.firstId < result.nextId := by
  obtain ⟨htidy, -, hid, hlt⟩ := execute_start_tidy h
  have hcoh : (ExecutionContext.create none options).pool.Coherent [] := coherent_start _
  obtain ⟨ctx, inst, hsince, hcoh', hqueue, hinst, hstate, -, hnext⟩ :=
    execute_keeps (I := fun ctx => ctx.pool.Since options.firstId (Pool.start options.firstId))
      (C := fun _ => True) hcoh h (fun _ _ => trivial)
      (fun after _ hok => .commanded hcoh rfl rfl (handleCommand_commanded hcoh.numbered hok))
      fun before t after _ hhand hI hok =>
        Pool.Since.turned (P := before.pool) hhand hI (processToken_turned hhand hok)
  have hresting := resting_toState hcoh' hqueue (hstate ▸ htidy.toOwned)
  rw [← hstate, ← hnext] at hresting
  refine ⟨hresting, fun t ht => ?_, hid, hlt⟩
  rw [hstate] at ht
  rcases hsince.tokens _ (ctx.mem_pool ht) with hid | hle
  · simp [Pool.start, Pool.ids] at hid
  · exact hle

end NexusWorkflow
