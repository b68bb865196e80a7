import NexusWorkflow.Game.Acts
import NexusWorkflow.Game.Ownership

/-!
# Scopes inside scopes

A scope is opened in the scope of a token, after it, and never moves: the scopes of a context are
always a tree that grows at its leaves.
-/

namespace NexusWorkflow

open ExecutionContext

/-- Scopes have ids that were handed out; a scope without a parent is the root, and the parent of
another one is there too and was opened before. -/
structure ExecutionContext.Nested (root : Nat) (ctx : ExecutionContext) : Prop where
  known : ∀ s ∈ ctx.scopeMap.values, s.id < ctx.nextId
  top : ∀ s ∈ ctx.scopeMap.values, s.parentScopeId = none → s.id = root
  parents : ∀ s ∈ ctx.scopeMap.values, ∀ p, s.parentScopeId = some p →
    p < s.id ∧ ∃ x ∈ ctx.scopeMap.values, x.id = p

/-- The scope of the id is in the map. -/
def ExecutionContext.HasScope (ctx : ExecutionContext) (id : Nat) : Prop :=
  ∃ s ∈ ctx.scopeMap.values, s.id = id

/-- The scopes have the same place in the tree. -/
def VariableScope.Stands (s x : VariableScope) : Prop :=
  x.id = s.id ∧ x.parentScopeId = s.parentScopeId

variable {d : ProcessDefinition} {ctx mid ctx' : ExecutionContext} {labels : List Label}
    {root : Nat}

namespace ExecutionContext

/-- From a context to one whose scopes are a tree still: ids are handed out, scopes stay in their
places, and new ones have new ids. -/
structure Grown (root : Nat) (ctx ctx' : ExecutionContext) : Prop where
  nested : ctx'.Nested root
  next : ctx.nextId ≤ ctx'.nextId
  keeps : ∀ id, ctx.HasScope id → ctx'.HasScope id
  fresh : ∀ s ∈ ctx'.scopeMap.values, (∃ x ∈ ctx.scopeMap.values, s.Stands x) ∨ ctx.nextId ≤ s.id

theorem Grown.trans (h : Grown root ctx mid) (h' : Grown root mid ctx') : Grown root ctx ctx' where
  nested := h'.nested
  next := h.next.trans h'.next
  keeps id hid := h'.keeps id (h.keeps id hid)
  fresh s hs := by
    rcases h'.fresh s hs with ⟨x, hx, hid, hparent⟩ | hle
    · rcases h.fresh x hx with ⟨y, hy, hid', hparent'⟩ | hle
      · exact .inl ⟨y, hy, hid'.trans hid, hparent'.trans hparent⟩
      · exact .inr (hid ▸ hle)
    · exact .inr (h.next.trans hle)

/-- What is no scope does not matter. -/
theorem Nested.frame (h : ctx.Nested root) (hscopes : ctx'.scopeMap = ctx.scopeMap)
    (hid : ctx.nextId ≤ ctx'.nextId) : Grown root ctx ctx' where
  nested :=
    { known := fun s hs => (h.known s (hscopes ▸ hs)).trans_le hid
      top := fun s hs => h.top s (hscopes ▸ hs)
      parents := fun s hs p hp => hscopes.symm ▸ h.parents s (hscopes ▸ hs) p hp }
  next := hid
  keeps id hid := by
    unfold HasScope
    rwa [hscopes]
  fresh s hs := .inl ⟨s, hscopes ▸ hs, rfl, rfl⟩

theorem Nested.grown (h : ctx.Nested root) : Grown root ctx ctx := h.frame rfl (le_refl _)

theorem HasScope.saveScope {id : Nat} (h : ctx.HasScope id) (scope : VariableScope) :
    (ctx.saveScope scope).HasScope id := by
  obtain ⟨s, hs, rfl⟩ := h
  by_cases hid : s.id = scope.id
  · exact ⟨scope, KeyedMap.mem_set.2 (.inl rfl), hid.symm⟩
  · exact ⟨s, KeyedMap.mem_set.2 (.inr ⟨hs, hid⟩), rfl⟩

/-- A scope is filed whose parent is there. -/
theorem Nested.saveScope (h : ctx.Nested root) {scope : VariableScope} (hid : scope.id < ctx.nextId)
    (htop : scope.parentScopeId = none → scope.id = root)
    (hparent : ∀ p, scope.parentScopeId = some p → p < scope.id ∧ ctx.HasScope p) :
    (ctx.saveScope scope).Nested root where
  known s hs := by
    rcases KeyedMap.mem_set.1 hs with rfl | ⟨hs, -⟩
    · exact hid
    · exact h.known s hs
  top s hs := by
    rcases KeyedMap.mem_set.1 hs with rfl | ⟨hs, -⟩
    · exact htop
    · exact h.top s hs
  parents s hs p hp := by
    rcases KeyedMap.mem_set.1 hs with rfl | ⟨hs, -⟩
    · obtain ⟨hlt, hhas⟩ := hparent p hp
      exact ⟨hlt, hhas.saveScope s⟩
    · obtain ⟨hlt, hhas⟩ := h.parents s hs p hp
      exact ⟨hlt, HasScope.saveScope hhas scope⟩

end ExecutionContext

/-! ## Acts -/

theorem completeInstance_frame (h : completeInstance ctx = .ok ctx') :
    ctx'.scopeMap = ctx.scopeMap ∧ ctx.nextId ≤ ctx'.nextId := by
  unfold completeInstance at h
  obtain ⟨inst, -, h⟩ := Except.bind_eq_ok_iff.1 h
  rw [← Except.ok.inj h]
  exact ⟨rfl, le_refl _⟩

/-- A silent act leaves the scopes alone. -/
theorem Act.frame (a : Act ctx none ctx') :
    ctx'.scopeMap = ctx.scopeMap ∧ ctx.nextId ≤ ctx'.nextId := by
  cases a <;> first | exact ⟨rfl, le_refl _⟩ | exact ⟨rfl, Nat.le_succ _⟩

/-- One act with a label; a scope is opened in a scope that is there. -/
theorem Act.grown {label : Label} (a : Act ctx (some label) ctx') (h : ctx.Nested root)
    (hopens : ∀ parent vars, label = .opens parent vars → ctx.HasScope parent) :
    Grown root ctx ctx' := by
  cases a with
  | wait t condition => exact h.frame rfl (le_refl _)
  | complete hcomplete =>
    obtain ⟨hscopes, hid⟩ := completeInstance_frame hcomplete
    exact h.frame hscopes hid
  | «open» parent vars =>
    have hnew : Grown root ctx ctx.newId.2 := h.frame rfl (Nat.le_succ _)
    obtain ⟨s, hs, hsid⟩ := hopens parent vars rfl
    have hnested : (ctx.newId.2.saveScope
        { id := ctx.newId.1, parentScopeId := some parent, vars }).Nested root := by
      refine hnew.nested.saveScope (Nat.lt_succ_self _) nofun ?_
      rintro p hp
      obtain rfl := Option.some.inj hp
      exact ⟨hsid ▸ h.known s hs, s, hs, hsid⟩
    refine ⟨hnested, hnew.next, fun id hid => (hnew.keeps id hid).saveScope _, fun x hx => ?_⟩
    rcases KeyedMap.mem_set.1 hx with rfl | ⟨hx, -⟩
    · exact .inr (le_refl _)
    · exact hnew.fresh x hx
  | merge hmerge =>
    obtain ⟨scope, hscope, rfl⟩ := mergeVariables_eq hmerge
    have hmem := KeyedMap.mem_of_get? hscope
    refine ⟨h.saveScope (h.known scope hmem) (h.top scope hmem) (h.parents scope hmem),
      le_refl _, fun id hid => hid.saveScope _, fun x hx => .inl ?_⟩
    rcases KeyedMap.mem_set.1 hx with rfl | ⟨hx, -⟩
    · exact ⟨scope, hmem, rfl, rfl⟩
    · exact ⟨x, hx, rfl, rfl⟩

/-- Acts that open scopes in scopes that are there. -/
theorem Acts.grown (a : Acts labels ctx ctx') (h : ctx.Nested root)
    (hopens : ∀ parent vars, .opens parent vars ∈ labels → ctx.HasScope parent) :
    Grown root ctx ctx' := by
  induction a with
  | refl => exact h.grown
  | silent _ a ih =>
    have hmid := ih h hopens
    obtain ⟨hscopes, hid⟩ := a.frame
    exact hmid.trans (hmid.nested.frame hscopes hid)
  | loud _ a ih =>
    have hmid := ih h fun parent vars hmem => hopens parent vars (List.mem_append_left _ hmem)
    exact hmid.trans (a.grown hmid.nested fun parent vars heq =>
      hmid.keeps parent (hopens parent vars (heq ▸ List.mem_append_right _ List.mem_cons_self)))

/-- Silent acts keep the scopes a tree. -/
theorem Acts.grown_silent (a : Acts [] ctx ctx') (h : ctx.Nested root) : Grown root ctx ctx' :=
  a.grown h fun _ _ hmem => absurd hmem List.not_mem_nil

/-! ## Turns -/

/-- The scopes of all tokens are in the map. -/
theorem ExecutionContext.Scoped.hasScope (h : ctx.Scoped) {t : Token}
    (ht : t ∈ ctx.tokenMap.values) : ctx.HasScope t.scopeId := by
  obtain ⟨inst, -, hscopes⟩ := h
  have hmem : t.scopeId ∈ ctx.scopeMap.values.map (·.id) := by
    rw [hscopes, mem_distinct]
    exact List.mem_cons_of_mem _ (List.mem_map_of_mem ht)
  exact List.mem_map.1 hmem

theorem Propagates.opens_notMem {s : String} (h : Propagates ctx s labels) {parent : Nat}
    {vars : Variables} : .opens parent vars ∉ labels := by
  intro hmem
  cases h with
  | none => cases hmem
  | merge => cases List.mem_singleton.1 hmem

theorem Label.InLoop.opens {p : Token} {lc : MultiInstanceLoopCharacteristics} {parent : Nat}
    {vars : Variables} (h : Label.InLoop p lc (.opens parent vars)) : parent = p.scopeId :=
  h.1

/-- A turn opens scopes in those of its token and of the token's parent. -/
theorem TurnActs.opens {t : Token} (h : TurnActs d ctx t labels) (hscoped : ctx.Scoped)
    (ht : ctx.HasScope t.scopeId) {parent : Nat} {vars : Variables}
    (hmem : .opens parent vars ∈ labels) : ctx.HasScope parent := by
  cases h with
  | silent => cases hmem
  | waits => cases List.mem_singleton.1 hmem
  | completes => cases List.mem_singleton.1 hmem
  | subProcess he hsub =>
    rcases List.mem_cons.1 hmem with heq | hmem
    · cases heq
      exact ht
    · cases List.mem_singleton.1 hmem
  | inner he htag h => exact absurd hmem h.opens_notMem
  | loop he hlc hp h =>
    rw [(h _ hmem).opens]
    rcases hp with rfl | hp
    · exact ht
    · obtain ⟨p, -, hp⟩ := Option.bind_eq_some_iff.1 hp
      exact hscoped.hasScope (KeyedMap.mem_of_get? hp)

theorem processToken_grown {t : Token} (h : processToken d ctx t = .ok ctx')
    (hscoped : ctx.Scoped) (ht : ctx.HasScope t.scopeId) (hnested : ctx.Nested root) :
    Grown root ctx ctx' := by
  obtain ⟨labels, hlabels, hacts⟩ := processToken_acts h
  exact hacts.grown hnested fun _ _ hmem => hlabels.opens hscoped ht hmem

/-! ## Commands -/

theorem Label.OfTask.opens {w : Token} {vars : Option Variables} {parent : Nat} {given : Variables}
    (h : Label.OfTask ctx w vars (.opens parent given)) :
    ∃ p ∈ ctx.tokenMap.values, parent = p.scopeId := by
  rcases h with ⟨_, _, h⟩ | ⟨p, lc, hp, h⟩
  · cases h
  · obtain ⟨_, -, hp⟩ := Option.bind_eq_some_iff.1 hp
    exact ⟨p, KeyedMap.mem_of_get? hp, h.opens⟩

theorem autoResume_frame (h : autoResume ctx = .ok ctx') :
    ctx'.scopeMap = ctx.scopeMap ∧ ctx.nextId ≤ ctx'.nextId := by
  unfold autoResume at h
  obtain ⟨inst, -, h⟩ := Except.bind_eq_ok_iff.1 h
  split at h <;> (rw [← Except.ok.inj h]; exact ⟨rfl, le_refl _⟩)

theorem handleCompleteTask_grown {id : Nat} {vars : Option Variables}
    (h : handleCompleteTask d ctx id vars = .ok ctx') (hscoped : ctx.Scoped)
    (hnested : ctx.Nested root) : Grown root ctx ctx' := by
  obtain ⟨w, resumed, labels, -, -, hresumed, hlabels, hacts⟩ := handleCompleteTask_acts h
  obtain ⟨hscopes, hid⟩ := autoResume_frame hresumed
  have hresume : Grown root ctx resumed := hnested.frame hscopes hid
  refine hresume.trans (hacts.grown hresume.nested fun parent given hmem => ?_)
  obtain ⟨p, hp, rfl⟩ := (hlabels _ hmem).opens
  exact hresume.keeps _ (hscoped.hasScope hp)

theorem handleFailServiceTask_grown {id : Nat} {code message : String}
    (h : handleFailServiceTask d ctx id code message = .ok ctx') (hnested : ctx.Nested root) :
    Grown root ctx ctx' := by
  unfold handleFailServiceTask at h
  obtain ⟨t, -, h⟩ := Except.bind_eq_ok_iff.1 h
  obtain ⟨inst, -, h⟩ := Except.bind_eq_ok_iff.1 h
  have hsay : Grown root ctx (ctx.emit (.serviceTaskFailed inst.id t.id t.elementId message 1)) :=
    hnested.frame rfl (le_refl _)
  simp only at h
  generalize ctx.emit (.serviceTaskFailed inst.id t.id t.elementId message 1) = said at h hsay
  split at h
  · have hcancel := hsay.trans ((cancelFailed_acts said t).grown_silent hsay.nested)
    refine (hcancel.trans (hcancel.nested.frame ?_ ?_)).trans
      ((moveTokenToFlows_acts h).grown_silent (hcancel.nested.frame ?_ ?_).nested) <;> rfl
  · rw [← Except.ok.inj h]
    exact hsay.trans (hsay.nested.frame rfl (le_refl _))

theorem resumeTargets_grown {isTarget : Token → Bool} {vars : Option Variables}
    (h : resumeTargets d ctx isTarget vars = .ok ctx') (hnested : ctx.Nested root) :
    Grown root ctx ctx' := by
  obtain ⟨labels, hlabels, hacts⟩ := resumeTargets_acts h
  refine hacts.grown hnested fun parent given hmem => ?_
  obtain ⟨_, _, _, _, _, heq⟩ := hlabels _ hmem
  cases heq

/-- Every command that goes on with an instance. -/
theorem handleCommand_grown {command : EngineCommand} (hgoes : command.goesOn = true)
    (h : handleCommand d ctx command = .ok ctx') (hscoped : ctx.Scoped) (hnested : ctx.Nested root)
    (hn : ctx.pool.Numbered) : Grown root ctx ctx' := by
  cases command with
  | startProcess _ _ _ => cases hgoes
  | completeServiceTask id vars | completeUserTask id completedBy vars =>
    exact handleCompleteTask_grown h hscoped hnested
  | failServiceTask id code message => exact handleFailServiceTask_grown h hnested
  | fireTimer id =>
    obtain ⟨t, hget, -, hcase⟩ := handleFireTimer_cases h
    rcases hcase with ⟨-, hacts⟩ | ⟨-, hcomplete⟩
    · exact hacts.grown_silent hnested
    · have ht : Ready ⟨True, True, False⟩ ctx t :=
        Assumed.Grants.of_mem ⟨fun _ => hn, False.elim⟩ (KeyedMap.mem_of_get? hget)
      have hclear := (cancelEbgSiblings_acts ctx t).grown_silent hnested
      exact hclear.trans (handleCompleteTask_grown hcomplete
        ((cancelEbgSiblings_effects (w := t) ht).scoped hn hscoped) hclear.nested)
  | deliverMessage name vars | broadcastSignal name vars => exact resumeTargets_grown h hnested
  | suspendInstance =>
    have h : handleSuspendInstance _ = .ok ctx' := h
    unfold handleSuspendInstance at h
    obtain ⟨inst, -, h⟩ := Except.bind_eq_ok_iff.1 h
    split at h
    · cases h
    · rw [← Except.ok.inj h]
      exact hnested.frame rfl (le_refl _)
  | resumeInstance =>
    have h : handleResumeInstance _ = .ok ctx' := h
    unfold handleResumeInstance at h
    obtain ⟨inst, -, h⟩ := Except.bind_eq_ok_iff.1 h
    split at h
    · cases h
    · rw [← Except.ok.inj h]
      exact hnested.frame rfl (le_refl _)
  | cancelInstance =>
    have h : handleCancelInstance _ = .ok ctx' := h
    unfold handleCancelInstance at h
    obtain ⟨inst, -, h⟩ := Except.bind_eq_ok_iff.1 h
    have hcancel := (cancelTokens_acts ctx (ctx.getAllTokens.filter Token.live)).grown_silent
        hnested
    rw [← Except.ok.inj h]
    exact hcancel.trans (hcancel.nested.frame rfl (le_refl _))

/-! ## Calls -/

theorem runLoop_grown {fuel : Nat} (hq : Queued ⟨True, True, False⟩ ctx)
    (hscoped : ctx.Scoped) (hnested : ctx.Nested root) (h : runLoop d fuel ctx = .ok ctx') :
    Grown root ctx ctx' := by
  induction fuel generalizing ctx with
  | zero =>
    cases hpending : ctx.pendingQueue with
    | nil =>
      rw [runLoop_nil d hpending] at h
      exact Except.ok.inj h ▸ hnested.grown
    | cons t rest =>
      rw [runLoop_zero d hpending] at h
      cases h
  | succ fuel ih =>
    cases hpending : ctx.pendingQueue with
    | nil =>
      rw [runLoop_nil d hpending] at h
      exact Except.ok.inj h ▸ hnested.grown
    | cons t rest =>
      rw [runLoop_cons d hpending] at h
      obtain ⟨mid, hmid, h⟩ := Except.bind_eq_ok_iff.1 h
      have hpop : Effects ⟨True, True, False⟩ ctx { ctx with pendingQueue := rest } :=
        .one (.dequeue hpending)
      have hready := hpop.ready (hq.ready (hpending ▸ List.mem_cons_self))
      have hturn := hpop.trans (processToken_effects (fun _ => trivial) hready hmid)
      have hn := hq.numbered trivial
      obtain ⟨x, hx, hbare⟩ := holds_iff_values.1 (hready.place trivial)
      have hpopped : ({ ctx with pendingQueue := rest } : ExecutionContext).Scoped :=
        hpop.scoped hn hscoped
      have ht : ({ ctx with pendingQueue := rest } : ExecutionContext).HasScope t.scopeId :=
        scopeId_of_bare hbare ▸ hpopped.hasScope hx
      have hpopGrown : Grown root ctx { ctx with pendingQueue := rest } :=
        hnested.frame rfl (le_refl _)
      have hmidGrown := hpopGrown.trans (processToken_grown hmid hpopped ht hpopGrown.nested)
      exact hmidGrown.trans (ih (hturn.queued hq) (hturn.scoped hn hscoped) hmidGrown.nested h)

/-- The scopes of a state are the ones in use, and a tree. -/
structure EngineState.Nested (state : EngineState) (nextId : Nat) : Prop where
  used : state.scopes.map (·.id) =
    distinct (state.inst.rootScopeId :: state.tokens.map (·.scopeId))
  known : ∀ s ∈ state.scopes, s.id < nextId
  top : ∀ s ∈ state.scopes, s.parentScopeId = none → s.id = state.inst.rootScopeId
  parents : ∀ s ∈ state.scopes, ∀ p, s.parentScopeId = some p →
    p < s.id ∧ ∃ x ∈ state.scopes, x.id = p

theorem EngineState.Nested.nodup {state : EngineState} {nextId : Nat} (h : state.Nested nextId) :
    (state.scopes.map (·.id)).Nodup := h.used ▸ nodup_distinct _

theorem ExecutionContext.Nested.state {inst : ProcessInstance} (hinst : ctx.inst = some inst)
    (hscoped : ctx.Scoped) (hnested : ctx.Nested inst.rootScopeId) :
    (ctx.toState inst).Nested ctx.nextId := by
  obtain ⟨inst', hinst', hused⟩ := hscoped
  obtain rfl : inst' = inst := Option.some.inj (hinst'.symm.trans hinst)
  exact ⟨hused, hnested.known, hnested.top, hnested.parents⟩

/-- A call on a state with smaller ids: the scopes of the new state are a tree again, in which a
scope stands where it stood in the old one or has a new id. -/
theorem execute_nested {fuel nextId : Nat} {command : EngineCommand} {state : EngineState}
    {options : ExecuteOptions} {result : EngineResult} (hgoes : command.goesOn = true)
    (hnested : state.Nested nextId) (hnd : (state.tokens.map (·.id)).Nodup)
    (hids : ∀ t ∈ state.tokens, t.id < options.firstId) (hle : nextId ≤ options.firstId)
    (h : execute d fuel command (some state) options = .ok result) :
    result.newState.Nested result.nextId ∧ ∀ s ∈ result.newState.scopes,
      (∃ x ∈ state.scopes, s.Stands x) ∨ options.firstId ≤ s.id := by
  have htokens : (ExecutionContext.create (some state) options).tokenMap.values = state.tokens :=
    KeyedMap.values_ofList hnd
  have hscopes : (ExecutionContext.create (some state) options).scopeMap.values = state.scopes :=
    KeyedMap.values_ofList hnested.nodup
  have hn : (ExecutionContext.create (some state) options).pool.Numbered := by
    intro t ht
    obtain ⟨x, hx, rfl⟩ := List.mem_map.1 ht
    rw [htokens] at hx
    exact hids x hx
  have hgrants : Assumed.Grants ⟨True, True, False⟩
      (ExecutionContext.create (some state) options) :=
    ⟨fun _ => hn, False.elim⟩
  have hscoped : (ExecutionContext.create (some state) options).Scoped :=
    ⟨state.inst, rfl, by rw [hscopes, htokens]; exact hnested.used⟩
  have hstart : (ExecutionContext.create (some state) options).Nested state.inst.rootScopeId :=
    ⟨fun s hs => (hnested.known s (hscopes ▸ hs)).trans_le hle,
      fun s hs => hnested.top s (hscopes ▸ hs),
      fun s hs p hp => hscopes.symm ▸ hnested.parents s (hscopes ▸ hs) p hp⟩
  unfold execute at h
  obtain ⟨mid, hmid, h⟩ := Except.bind_eq_ok_iff.1 h
  obtain ⟨ctx, hctx, h⟩ := Except.bind_eq_ok_iff.1 h
  unfold ExecutionContext.toResult at h
  obtain ⟨inst, hinst, h⟩ := Except.bind_eq_ok_iff.1 h
  have heffects := handleCommand_effects hgoes hgrants hmid
  have hq := heffects.queued ⟨hgrants, fun t ht => absurd ht List.not_mem_nil⟩
  have hloop := runLoop_effects trivial hq hctx
  have hmidScoped := heffects.scoped hn hscoped
  have hcommand := handleCommand_grown hgoes hmid hscoped hstart hn
  have hgrown := hcommand.trans (runLoop_grown hq hmidScoped hcommand.nested hctx)
  have hinst := requireInstance_eq hinst
  have hroot : inst.rootScopeId = state.inst.rootScopeId := by
    have hcore := (heffects.trans hloop).core
    rw [hinst] at hcore
    have hcore : inst.core = state.inst.core := Option.some.inj hcore
    have hroot := congrArg ProcessInstance.rootScopeId hcore
    exact hroot
  rw [← Except.ok.inj h]
  refine ⟨Nested.state hinst (hloop.scoped (hq.numbered trivial) hmidScoped)
    (hroot ▸ hgrown.nested),
    fun s hs => ?_⟩
  rcases hgrown.fresh s hs with ⟨x, hx, hxs⟩ | hle
  · exact .inl ⟨x, hscopes ▸ hx, hxs⟩
  · exact .inr hle

/-- The first call of an instance. -/
theorem execute_start_nested {fuel : Nat} {vars : Option Variables}
    {correlationKey businessKey : Option String} {options : ExecuteOptions} {result : EngineResult}
    (h : execute d fuel (.startProcess vars correlationKey businessKey) none options = .ok result) :
    result.newState.Nested result.nextId ∧ ∀ s ∈ result.newState.scopes,
      options.firstId ≤ s.id := by
  unfold execute at h
  obtain ⟨mid, hmid, h⟩ := Except.bind_eq_ok_iff.1 h
  obtain ⟨ctx, hctx, h⟩ := Except.bind_eq_ok_iff.1 h
  unfold ExecutionContext.toResult at h
  obtain ⟨inst, hinst, h⟩ := Except.bind_eq_ok_iff.1 h
  obtain ⟨htidy, hq, -, -⟩ := handleStartProcess_tidy hmid
  obtain ⟨hroot, hscopes, hnext⟩ : mid.inst.map (·.rootScopeId) = some (options.firstId + 1) ∧
      mid.scopeMap.values = [{ id := options.firstId + 1, vars := vars.getD ∅ }] ∧
        mid.nextId = options.firstId + 3 := by
    have hmid : handleStartProcess d (ExecutionContext.create none options) vars correlationKey
      businessKey = .ok mid := hmid
    unfold handleStartProcess at hmid
    obtain ⟨element, -, hmid⟩ := Except.bind_eq_ok_iff.1 hmid
    rw [← Except.ok.inj hmid]
    exact ⟨rfl, rfl, rfl⟩
  have hnested : mid.Nested (options.firstId + 1) := by
    have honly : ∀ s ∈ mid.scopeMap.values, s.id = options.firstId + 1 ∧
        s.parentScopeId = none := by
      intro s hs
      rw [hscopes, List.mem_singleton] at hs
      rw [hs]
      exact ⟨rfl, rfl⟩
    refine ⟨fun s hs => ?_, fun s hs _ => (honly s hs).1, fun s hs p hp => ?_⟩
    · have := (honly s hs).1
      omega
    · rw [(honly s hs).2] at hp
      cases hp
  have hscoped := (tidy_iff.1 htidy).2
  have hgrown := runLoop_grown hq hscoped hnested hctx
  have hloop := runLoop_effects trivial hq hctx
  have hinst := requireInstance_eq hinst
  have hsame : inst.rootScopeId = options.firstId + 1 := by
    have hcore := congrArg (Option.map ProcessInstance.rootScopeId) hloop.core
    rw [hinst, Option.map_map, Option.map_map] at hcore
    exact Option.some.inj (hcore.trans hroot)
  rw [← Except.ok.inj h]
  refine ⟨Nested.state hinst (hloop.scoped (hq.numbered trivial) hscoped) (hsame ▸ hgrown.nested),
    fun s hs => ?_⟩
  rcases hgrown.fresh s hs with ⟨x, hx, hxs, -⟩ | hle
  · rw [hscopes, List.mem_singleton] at hx
    have hxid : x.id = options.firstId + 1 := by rw [hx]
    omega
  · omega

end NexusWorkflow
