import NexusWorkflow.Game.Nesting
import NexusWorkflow.Lib.Ancestry
import NexusWorkflow.Lib.Interleaving
import NexusWorkflow.Model.History
import NexusWorkflow.Model.Scopes
import NexusWorkflow.Run.Diagram
import NexusWorkflow.Store.Service

/-!
# The variables that a token sees

In every store in service the scopes of an instance are a tree under its root scope, and those of
different instances are apart.  So the chain of scopes around a token comes to an end, at the root;
the engine, the history, the workers and the task list, each of which walks it in its own way, see
the same variables; and commits between the steps of a walk do not lead it astray.
-/

namespace NexusWorkflow

open Ancestry ExecutionContext

variable {definitions : String → Nat → Option ProcessDefinition} {store store' : Store}
  {nextId nextId' : Nat} {chain : List VariableScope}

/-- The scope of the id and those around it, up to one that has no parent. -/
abbrev Store.Chain (store : Store) (id : Option Nat) (chain : List VariableScope) : Prop :=
  Ancestry.Chain store.getScope VariableScope.parentScopeId id chain

theorem id_of_get? {scopes : KeyedMap VariableScope.id} (id : Nat) (s : VariableScope)
    (h : scopes.get? id = some s) : s.id = id :=
  KeyedMap.key_of_get? h

/-! ## Walks -/

section Walks

variable {scopes : KeyedMap VariableScope.id} {id : Option Nat} {fuel : Nat}

theorem scopeChain_eq (h : Chain scopes.get? VariableScope.parentScopeId id chain)
    (hfuel : chain.length ≤ fuel) : scopeChain scopes fuel id = .ok chain := by
  induction h generalizing fuel with
  | top => cases fuel <;> rfl
  | link h _ ih =>
    cases fuel with
    | zero => cases hfuel
    | succ fuel =>
      rw [scopeChain]
      simp only [h, ih (Nat.le_of_succ_le_succ hfuel)]
      rfl

theorem snapshotChain_eq (h : Chain scopes.get? VariableScope.parentScopeId id chain)
    (hfuel : chain.length ≤ fuel) (seen : List VariableScope)
    (hnd : ((seen ++ chain).map (·.id)).Nodup) :
    snapshotChain scopes fuel id seen = seen ++ chain := by
  induction h generalizing fuel seen with
  | top => cases fuel <;> simp [snapshotChain]
  | @link k scope rest h _ ih =>
    cases fuel with
    | zero => cases hfuel
    | succ fuel =>
      have hnew : ¬ seen.any (·.id = scope.id) := by
        intro hany
        obtain ⟨x, hx, hxid⟩ := List.any_eq_true.1 hany
        rw [List.map_append, List.map_cons] at hnd
        exact List.disjoint_of_nodup_append hnd (List.mem_map_of_mem hx)
          (of_decide_eq_true hxid ▸ List.mem_cons_self)
      have hsplit : seen ++ scope :: rest = seen ++ [scope] ++ rest := List.append_cons ..
      rw [hsplit] at hnd ⊢
      rw [snapshotChain]
      simp only [h, hnew]
      exact ih (Nat.le_of_succ_le_succ hfuel) _ hnd

theorem subset_of_chain (h : Chain scopes.get? VariableScope.parentScopeId id chain) :
    chain ⊆ scopes.values := by
  induction h with
  | top => exact List.nil_subset _
  | link h _ ih => exact List.cons_subset.2 ⟨KeyedMap.mem_of_get? h, ih⟩

/-- No chain is longer than there are scopes. -/
theorem length_le_of_chain (h : Chain scopes.get? VariableScope.parentScopeId id chain) :
    chain.length ≤ scopes.values.length :=
  (List.subperm_of_subset ((h.nodup id_of_get?).of_map _) (subset_of_chain h)).length_le

end Walks

/-- The scopes stand where they stood, and there may be more. -/
def Store.Keeps (store store' : Store) : Prop :=
  ∀ s ∈ store.scopes.values, ∃ x ∈ store'.scopes.values, s.Stands x

/-- A walk whose steps are answered by later and later stores: it takes one query for each scope of
the chain at its beginning, and gives the same scopes as they are in the stores that were asked. -/
theorem getScopeChain_gives {id : Option Nat} {fuel : Nat} {seen : List Store}
    {result : Option (List VariableScope)} (h : Reading.Gives (getScopeChain fuel id) seen result)
    (hchain : store.Chain id chain) (hfuel : chain.length ≤ fuel)
    (hkeeps : ∀ s ∈ seen, store.Keeps s) :
    ∃ found, result = some found ∧ found.map (·.id) = chain.map (·.id) ∧
      List.Forall₂ (fun scope s => Store.getScope s scope.id = some scope) found seen := by
  induction hchain generalizing fuel seen result with
  | top =>
    have hpure : getScopeChain fuel none = .done (some []) := by cases fuel <;> rfl
    rw [hpure] at h
    obtain ⟨rfl, rfl⟩ := Reading.gives_done h
    exact ⟨[], rfl, rfl, .nil⟩
  | @link k scope rest hget htail ih =>
    cases fuel with
    | zero => cases hfuel
    | succ fuel =>
      rw [getScopeChain] at h
      obtain ⟨first, later, answer, rfl, hask, h⟩ := Reading.gives_bind h
      obtain ⟨s, rfl, rfl⟩ := Reading.gives_ask hask
      obtain ⟨x, hx, hxid, hparent⟩ := hkeeps s (List.mem_append_left _ (List.mem_singleton_self s))
        scope (KeyedMap.mem_of_get? hget)
      have hk : x.id = k := hxid.trans (KeyedMap.key_of_get? hget)
      have hfound : s.getScope k = some x := hk ▸ KeyedMap.get?_of_mem hx
      rw [hfound] at h
      obtain ⟨steps, last, tail, rfl, hsteps, h⟩ := Reading.gives_bind h
      obtain ⟨rfl, rfl⟩ := Reading.gives_done h
      rw [hparent] at hsteps
      obtain ⟨found, rfl, hids, hall⟩ := ih hsteps (Nat.le_of_succ_le_succ hfuel) fun s' hs' =>
        hkeeps s' (List.mem_append_right _ (List.mem_append_left _ hs'))
      refine ⟨x :: found, rfl, ?_, ?_⟩
      · rw [List.map_cons, List.map_cons, hids, hxid]
      · rw [List.append_nil]
        exact .cons (hk.symm ▸ hfound) hall

theorem getScopeChain_alone {id : Option Nat} {fuel : Nat} (h : store.Chain id chain)
    (hfuel : chain.length ≤ fuel) : (getScopeChain fuel id).alone store = some chain := by
  induction h generalizing fuel with
  | top => cases fuel <;> rfl
  | link h _ ih =>
    cases fuel with
    | zero => cases hfuel
    | succ fuel =>
      rw [getScopeChain]
      simp only [Reading.alone_bind, Reading.alone_ask, h, ih (Nat.le_of_succ_le_succ hfuel),
        Reading.alone_pure, Option.map_some]

/-! ## The innermost scope wins -/

theorem Variables.lookup_merge (vars more : Variables) (name : String) :
    (vars.merge more).lookup name = (more.lookup name).or (vars.lookup name) := by
  unfold Variables.lookup Variables.merge
  cases hmore : more.get? name with
  | none =>
    rw [KeyedMap.get?_foldl_set_of_notMem fun v hv hname =>
      KeyedMap.get?_eq_none_iff.1 hmore v hv hname]
    rfl
  | some v =>
    have hset := KeyedMap.get?_foldl_set_of_mem (m := vars) more.nodup (KeyedMap.mem_of_get? hmore)
    rw [KeyedMap.key_of_get? hmore] at hset
    rw [hset]
    rfl

/-- The variables of a chain of scopes. -/
def visible (chain : List VariableScope) : Variables :=
  chain.foldr (fun scope vars => vars.merge scope.vars) ∅

theorem foldl_merge_eq (chain : List VariableScope) :
    chain.reverse.foldl (fun vars scope => vars.merge scope.vars) (∅ : Variables) =
      visible chain := by
  rw [List.foldl_reverse]
  rfl

/-- No variable has the name under which an object of JavaScript keeps its prototype. -/
def VariableScope.Ordinary (scope : VariableScope) : Prop := scope.vars.get? "__proto__" = none

instance (scope : VariableScope) : Decidable scope.Ordinary :=
  decidable_of_iff ((scope.vars.get? "__proto__").isNone = true) Option.isNone_iff_eq_none

theorem Variables.assign_eq_merge {scope : VariableScope} (h : scope.Ordinary) (vars : Variables) :
    vars.assign scope.vars = vars.merge scope.vars := by
  have hall : scope.vars.values.filter (·.1 ≠ "__proto__") = scope.vars.values :=
    List.filter_eq_self.2 fun v hv => decide_eq_true (KeyedMap.get?_eq_none_iff.1 h v hv)
  rw [Variables.assign, hall, Variables.merge]

/-- Both ways to put the scopes of a chain together give the same variables. -/
theorem mergeScopes_eq (h : ∀ s ∈ chain, s.Ordinary) :
    TaskWorker.mergeScopes chain = visible chain := by
  induction chain with
  | nil => rfl
  | cons scope chain ih =>
    have hstep : TaskWorker.mergeScopes (scope :: chain) =
        (TaskWorker.mergeScopes chain).assign scope.vars := rfl
    rw [hstep, Variables.assign_eq_merge (h scope List.mem_cons_self),
      ih fun s hs => h s (List.mem_cons_of_mem scope hs)]
    rfl

theorem foldl_assign_eq (h : ∀ s ∈ chain, s.Ordinary) :
    chain.reverse.foldl (fun vars scope => vars.assign scope.vars) (∅ : Variables) =
      visible chain := by
  rw [List.foldl_reverse, ← mergeScopes_eq h]
  rfl

/-- A name means what it means in the innermost scope that knows it. -/
theorem lookup_visible (chain : List VariableScope) (name : String) :
    (visible chain).lookup name = chain.findSome? fun scope => scope.vars.lookup name := by
  induction chain with
  | nil => rfl
  | cons scope chain ih =>
    have hstep : visible (scope :: chain) = (visible chain).merge scope.vars := rfl
    rw [hstep, Variables.lookup_merge, ih, List.findSome?_cons]
    cases scope.vars.lookup name <;> rfl

/-! ## The scopes of a store -/

/-- The scope is the root scope of the instance, or that of one of its tokens. -/
def Store.InUse (store : Store) (inst : ProcessInstance) (id : Nat) : Prop :=
  id = inst.rootScopeId ∨ ∃ t ∈ store.tokens.values, t.instanceId = inst.id ∧ t.scopeId = id

/-- The scopes in use by an instance are a tree under its root scope, and no two instances use the
same one. -/
structure Store.Forest (store : Store) (nextId : Nat) : Prop where
  known : ∀ s ∈ store.scopes.values, s.id < nextId
  found : ∀ row ∈ store.instances.values, ∀ id, store.InUse row.data id →
    ∃ s, store.getScope id = some s ∧ (s.parentScopeId = none → id = row.data.rootScopeId) ∧
      ∀ p, s.parentScopeId = some p → store.InUse row.data p ∧ p < id
  apart : ∀ row ∈ store.instances.values, ∀ row' ∈ store.instances.values, ∀ id,
    store.InUse row.data id → store.InUse row'.data id → row = row'

theorem Store.Forest.grounded (h : store.Forest nextId) {row : InstanceRow}
    (hrow : row ∈ store.instances.values) :
    Grounded store.getScope VariableScope.parentScopeId (store.InUse row.data) := by
  intro id hid
  obtain ⟨s, hs, -, hparents⟩ := h.found row hrow id hid
  exact ⟨s, hs, hparents⟩

/-- The walk from a scope in use ends at the root scope, and never leaves the scopes of the
instance. -/
theorem Store.Forest.walks (h : store.Forest nextId) {row : InstanceRow}
    (hrow : row ∈ store.instances.values) {id : Nat} (hid : store.InUse row.data id) :
    ∃ chain, store.Chain (some id) chain ∧ (∀ s ∈ chain, store.InUse row.data s.id) ∧
      chain.getLast?.map (·.id) = some row.data.rootScopeId := by
  obtain ⟨chain, hchain, hin⟩ := (h.grounded hrow).chain hid
  have huse : ∀ s ∈ chain, store.getScope s.id = some s ∧ store.InUse row.data s.id := by
    intro s hs
    obtain ⟨k, hk, hget⟩ := hin s hs
    obtain rfl : s.id = k := KeyedMap.key_of_get? hget
    exact ⟨hget, hk⟩
  refine ⟨chain, hchain, fun s hs => (huse s hs).2, ?_⟩
  obtain ⟨top, htop, hnone⟩ := hchain.getLast?
  obtain ⟨hget, hk⟩ := huse top (List.mem_of_getLast? htop)
  obtain ⟨s, hs, hroot, -⟩ := h.found row hrow _ hk
  obtain rfl := Option.some.inj (hs.symm.trans hget)
  rw [htop, Option.map_some, hroot hnone]

/-! ## What is loaded -/

theorem mem_distinct_loaded (order : RowOrder) (inst : ProcessInstance) (id : Nat) :
    id ∈ distinct (inst.rootScopeId :: (store.getAllTokens order inst.id).map (·.scopeId)) ↔
      store.InUse inst id := by
  rw [mem_distinct, List.mem_cons, List.mem_map]
  refine or_congr_right ⟨?_, ?_⟩
  · rintro ⟨t, ht, rfl⟩
    obtain ⟨x, hx, hinst, rfl⟩ := mem_loaded.1 ht
    exact ⟨x, hx, hinst, rfl⟩
  · rintro ⟨x, hx, hinst, rfl⟩
    exact ⟨reviveToken x, mem_loaded.2 ⟨x, hx, hinst, rfl⟩, rfl⟩

/-- The scopes that are loaded are those in use. -/
theorem mem_loaded_scopes {order : RowOrder} {inst : ProcessInstance} {s : VariableScope} :
    s ∈ (store.loaded order inst).scopes ↔
      store.InUse inst s.id ∧ store.getScope s.id = some s := by
  show s ∈ List.flatMap _ _ ↔ _
  rw [List.mem_flatMap]
  constructor
  · rintro ⟨id, hid, hs⟩
    have hget : store.getScope id = some s := Option.mem_toList.1 hs
    obtain rfl : s.id = id := KeyedMap.key_of_get? hget
    exact ⟨(mem_distinct_loaded order inst _).1 hid, hget⟩
  · rintro ⟨hid, hget⟩
    exact ⟨s.id, (mem_distinct_loaded order inst _).2 hid, Option.mem_toList.2 hget⟩

/-- A loaded state has all the scopes that it uses, as a tree. -/
theorem Store.Forest.loaded (h : store.Forest nextId) {row : InstanceRow}
    (hrow : row ∈ store.instances.values) (order : RowOrder) :
    (store.loaded order (reviveInstance row.data)).Nested nextId where
  used := by
    have hall : ∀ ids : List Nat, (∀ id ∈ ids, store.InUse row.data id) →
        (ids.flatMap fun id => (store.getScope id).toList).map (·.id) = ids := by
      intro ids hids
      induction ids with
      | nil => rfl
      | cons id ids ih =>
        obtain ⟨s, hs, -⟩ := h.found row hrow id (hids id List.mem_cons_self)
        have hid : s.id = id := KeyedMap.key_of_get? hs
        rw [List.flatMap_cons, hs, Option.toList_some, List.singleton_append, List.map_cons, hid,
          ih fun x hx => hids x (List.mem_cons_of_mem id hx)]
    exact hall _ fun id hid => (mem_distinct_loaded order (reviveInstance row.data) id).1 hid
  known s hs := h.known s (KeyedMap.mem_of_get? (mem_loaded_scopes.1 hs).2)
  top s hs hnone := by
    obtain ⟨huse, hget⟩ := mem_loaded_scopes.1 hs
    obtain ⟨x, hx, hroot, -⟩ := h.found row hrow s.id huse
    obtain rfl := Option.some.inj (hget.symm.trans hx)
    exact hroot hnone
  parents s hs p hp := by
    obtain ⟨huse, hget⟩ := mem_loaded_scopes.1 hs
    obtain ⟨x, hx, -, hparents⟩ := h.found row hrow s.id huse
    obtain rfl := Option.some.inj (hget.symm.trans hx)
    obtain ⟨hpuse, hlt⟩ := hparents p hp
    obtain ⟨y, hy, -⟩ := h.found row hrow p hpuse
    have hid : y.id = p := KeyedMap.key_of_get? hy
    exact ⟨hlt, y, mem_loaded_scopes.2 ⟨hid.symm ▸ hpuse, hid.symm ▸ hy⟩, hid⟩

/-- The walk goes the same way on what is loaded. -/
theorem Store.Forest.walk_loaded (h : store.Forest nextId) {row : InstanceRow}
    (hrow : row ∈ store.instances.values) (order : RowOrder) {id : Nat}
    (hid : store.InUse row.data id) (hchain : store.Chain (some id) chain) :
    Ancestry.Chain (KeyedMap.ofList (store.loaded order (reviveInstance row.data)).scopes :
      KeyedMap VariableScope.id).get? VariableScope.parentScopeId (some id) chain := by
  have hgrounded : Grounded (KeyedMap.ofList (store.loaded order (reviveInstance row.data)).scopes :
      KeyedMap VariableScope.id).get? VariableScope.parentScopeId (store.InUse row.data) := by
    intro id hid
    obtain ⟨s, hs, -, hparents⟩ := h.found row hrow id hid
    have hsid : s.id = id := KeyedMap.key_of_get? hs
    refine ⟨s, ?_, hparents⟩
    rw [KeyedMap.get?_ofList_eq_some_iff (h.loaded hrow order).nodup]
    exact ⟨mem_loaded_scopes.2 ⟨hsid.symm ▸ hid, hsid.symm ▸ hs⟩, hsid⟩
  obtain ⟨chain', hchain', -⟩ := hgrounded.chain hid
  have hstore : store.Chain (some id) chain' := hchain'.mono fun k s hget => by
    rw [KeyedMap.get?_ofList_eq_some_iff (h.loaded hrow order).nodup] at hget
    exact hget.2 ▸ (mem_loaded_scopes.1 hget.1).2
  exact hchain.unique hstore ▸ hchain'

/-! ## Commits -/

/-- What a commit does to scopes that it does not write. -/
theorem getScope_saved {new : EngineState}
    (hscopes : store'.scopes = new.scopes.foldl (fun m s => m.set s.throughJson) store.scopes)
    {id : Nat} (hnot : ∀ s ∈ new.scopes, s.id ≠ id) : store'.getScope id = store.getScope id := by
  have hfold : store'.scopes = (new.scopes.map VariableScope.throughJson).foldl KeyedMap.set
      store.scopes := by rw [hscopes, List.foldl_map]
  rw [Store.getScope, hfold, KeyedMap.get?_foldl_set_of_notMem]
  · rfl
  · intro s hs
    obtain ⟨x, hx, rfl⟩ := List.mem_map.1 hs
    exact hnot x hx

theorem getScope_saved_of_mem {new : EngineState} (hnd : (new.scopes.map (·.id)).Nodup)
    (hscopes : store'.scopes = new.scopes.foldl (fun m s => m.set s.throughJson) store.scopes)
    {s : VariableScope} (hs : s ∈ new.scopes) : store'.getScope s.id = some s.throughJson := by
  have hfold : store'.scopes = (new.scopes.map VariableScope.throughJson).foldl KeyedMap.set
      store.scopes := by rw [hscopes, List.foldl_map]
  have hnd' : ((new.scopes.map VariableScope.throughJson).map VariableScope.id).Nodup := by
    rw [List.map_map]
    exact hnd
  rw [Store.getScope, hfold]
  exact KeyedMap.get?_foldl_set_of_mem hnd' (List.mem_map_of_mem hs)

/-- The rows of an instance are replaced by those of a new state, with a tree of scopes that stand
where they stood in the store or have new ids. -/
structure Store.Replants (store : Store) (nextId : Nat) (new : EngineState) (store' : Store)
    (nextId' : Nat) : Prop where
  le : nextId ≤ nextId'
  nested : new.Nested nextId'
  owned : ∀ t ∈ new.tokens, t.instanceId = new.inst.id
  replaced : store.Replaced new store'
  scopes : store'.scopes = new.scopes.foldl (fun m s => m.set s.throughJson) store.scopes
  origin : ∀ s ∈ new.scopes, (∃ row ∈ store.instances.values, row.data.id = new.inst.id ∧
    store.InUse row.data s.id ∧ ∃ x, store.getScope s.id = some x ∧ s.Stands x) ∨ nextId ≤ s.id

namespace Store.Replants

variable {new : EngineState}

theorem inUse_new (h : store.Replants nextId new store' nextId') {id : Nat} :
    store'.InUse new.inst id ↔ ∃ s ∈ new.scopes, s.id = id := by
  have hmem : (∃ s ∈ new.scopes, s.id = id) ↔ id ∈ new.scopes.map (·.id) := List.mem_map.symm
  rw [hmem, h.nested.used, mem_distinct, List.mem_cons, List.mem_map]
  refine or_congr_right ⟨?_, ?_⟩
  · rintro ⟨t, ht, hinst, rfl⟩
    rcases (h.replaced.tokens t).1 ht with ht | ⟨-, hne⟩
    · exact ⟨t, ht, rfl⟩
    · exact absurd hinst hne
  · rintro ⟨t, ht, rfl⟩
    exact ⟨t, (h.replaced.tokens t).2 (.inl ht), h.owned t ht, rfl⟩

theorem inUse_other (h : store.Replants nextId new store' nextId') {inst : ProcessInstance}
    (hne : inst.id ≠ new.inst.id) {id : Nat} : store'.InUse inst id ↔ store.InUse inst id := by
  refine or_congr_right ⟨?_, ?_⟩
  · rintro ⟨t, ht, hinst, rfl⟩
    rcases (h.replaced.tokens t).1 ht with ht | ⟨ht, -⟩
    · exact absurd (hinst.symm.trans (h.owned t ht)) hne
    · exact ⟨t, ht, hinst, rfl⟩
  · rintro ⟨t, ht, hinst, rfl⟩
    exact ⟨t, (h.replaced.tokens t).2 (.inr ⟨ht, hinst ▸ hne⟩), hinst, rfl⟩

/-- No scope of another instance is written. -/
theorem untouched (h : store.Replants nextId new store' nextId') (hforest : store.Forest nextId)
    {row : InstanceRow} (hrow : row ∈ store.instances.values) (hne : row.data.id ≠ new.inst.id)
    {id : Nat} (hid : store.InUse row.data id) {s : VariableScope} (hs : s ∈ new.scopes) :
    s.id ≠ id := by
  rintro rfl
  rcases h.origin s hs with ⟨row', hrow', hid', huse, -⟩ | hle
  · exact hne (hforest.apart row hrow row' hrow' s.id hid huse ▸ hid')
  · obtain ⟨x, hx, -⟩ := hforest.found row hrow s.id hid
    have hlt := hforest.known x (KeyedMap.mem_of_get? hx)
    have hxid : x.id = s.id := KeyedMap.key_of_get? hx
    omega

theorem forest (h : store.Replants nextId new store' nextId') (hforest : store.Forest nextId) :
    store'.Forest nextId' where
  known s hs := by
    rw [h.scopes, ← List.foldl_map (f := VariableScope.throughJson) (g := KeyedMap.set)] at hs
    rcases KeyedMap.mem_foldl_set hs with hs | hs
    · exact (hforest.known s hs).trans_le h.le
    · obtain ⟨x, hx, rfl⟩ := List.mem_map.1 hs
      exact h.nested.known x hx
  found row hrow id hid := by
    rcases h.replaced.instances row hrow with heq | ⟨hold, hne⟩
    · rw [heq] at hid ⊢
      obtain ⟨s, hs, rfl⟩ := h.inUse_new.1 hid
      refine ⟨_, getScope_saved_of_mem h.nested.nodup h.scopes hs, h.nested.top s hs, fun p hp =>
        ?_⟩
      obtain ⟨hlt, hparent⟩ := h.nested.parents s hs p hp
      exact ⟨h.inUse_new.2 hparent, hlt⟩
    · have hid := (h.inUse_other hne).1 hid
      obtain ⟨s, hs, htop, hparents⟩ := hforest.found row hold id hid
      refine ⟨s, ?_, htop, fun p hp => ?_⟩
      · rw [getScope_saved h.scopes fun x hx => h.untouched hforest hold hne hid hx, hs]
      · exact ⟨(h.inUse_other hne).2 (hparents p hp).1, (hparents p hp).2⟩
  apart row hrow row' hrow' id hid hid' := by
    rcases h.replaced.instances row hrow with heq | ⟨hold, hne⟩ <;>
      rcases h.replaced.instances row' hrow' with heq' | ⟨hold', hne'⟩
    · have hkey : row.id = row'.id := by
        show row.data.id = row'.data.id
        rw [heq, heq']
      exact KeyedMap.eq_of_key_eq hrow hrow' hkey
    · obtain ⟨s, hs, rfl⟩ := h.inUse_new.1 (heq ▸ hid)
      exact absurd rfl (h.untouched hforest hold' hne' ((h.inUse_other hne').1 hid') hs)
    · obtain ⟨s, hs, rfl⟩ := h.inUse_new.1 (heq' ▸ hid')
      exact absurd rfl (h.untouched hforest hold hne ((h.inUse_other hne).1 hid) hs)
    · exact hforest.apart row hold row' hold' id ((h.inUse_other hne).1 hid)
        ((h.inUse_other hne').1 hid')

theorem keeps (h : store.Replants nextId new store' nextId') (hforest : store.Forest nextId) :
    store.Keeps store' := by
  intro s hs
  by_cases hin : ∃ x ∈ new.scopes, x.id = s.id
  · obtain ⟨x, hx, hxid⟩ := hin
    have hsaved := getScope_saved_of_mem h.nested.nodup h.scopes hx
    refine ⟨_, KeyedMap.mem_of_get? hsaved, hxid, ?_⟩
    rcases h.origin x hx with ⟨-, -, -, -, y, hy, -, hparent⟩ | hle
    · have hsy : s = y := by
        rw [hxid, Store.getScope, KeyedMap.get?_of_mem hs] at hy
        exact Option.some.inj hy
      rw [hsy]
      exact hparent.symm
    · have := hforest.known s hs
      omega
  · have hget : store'.getScope s.id = some s := by
      rw [getScope_saved h.scopes fun x hx hxs => hin ⟨x, hx, hxs⟩]
      exact KeyedMap.get?_of_mem hs
    exact ⟨s, KeyedMap.mem_of_get? hget, rfl, rfl⟩

end Store.Replants

/-! ## Stores in service -/

variable {d : ProcessDefinition} {options : ExecuteOptions} {result : EngineResult}

theorem Cycle.Done.replants {c : Cycle} {instanceId : Nat} {state : EngineState} {version : Nat}
    {ops : List StoreOperation}
    (h : c.Done definitions instanceId store d state version result ops store')
    (hsound : store.Sound nextId) (hforest : store.Forest nextId)
    (hfirst : nextId ≤ c.options.firstId) :
    store.Replants nextId result.newState store' result.nextId := by
  obtain ⟨⟨row, hrow, -, rfl⟩, hcont⟩ := h.continued hsound hfirst
  obtain ⟨more, hmore, rfl⟩ := h.ops_eq
  have hloaded := hforest.loaded hrow c.order
  have hrest := hsound.loaded c.order (reviveInstance row.data)
  obtain ⟨hnested, horigin⟩ := execute_nested c.goesOn hloaded hrest.tokenIds
    (fun t ht => (hrest.known t ht).trans_le hfirst) hfirst h.executes
  refine ⟨hfirst.trans hcont.next, hnested, hcont.resting.tokens, h.replaced hsound hfirst,
    (stateOps_tables rfl hmore h.saves).2.2.1, fun s hs => ?_⟩
  rcases horigin s hs with ⟨x, hx, hstands⟩ | hle
  · obtain ⟨huse, hget⟩ := mem_loaded_scopes.1 hx
    rw [hstands.1] at huse hget
    exact .inl ⟨row, hrow, hcont.instId.symm, huse, x, hget, hstands⟩
  · exact .inr (hfirst.trans hle)

theorem replants_start {fuel : Nat} {vars : Option Variables}
    {correlationKey businessKey : Option String} {firstTaskId : Nat}
    (hsound : store.Sound nextId) (hfirst : nextId ≤ options.firstId)
    (h : execute d fuel (.startProcess vars correlationKey businessKey) none options = .ok result)
    (hsave : store.executeTransaction (computeStoreOps true none none result.newState ++
      buildUserTaskCreationOps firstTaskId result.events d) = .ok store') :
    store.Replants nextId result.newState store' result.nextId := by
  obtain ⟨hrest, -, -, hlt⟩ := execute_start_resting h
  obtain ⟨hnested, hnew⟩ := execute_start_nested h
  have hreplaced := replaced_start hsound hfirst h hsave
  rw [computeStoreOps, List.append_assoc] at hsave
  exact ⟨by omega, hnested, hrest.tokens, hreplaced,
    (stateOps_tables rfl besides_start hsave).2.2.1,
    fun s hs => .inr (hfirst.trans (hnew s hs))⟩

/-- What is written to the tables of the tasks is no scope, token or instance. -/
theorem tables_tasks {ops : List StoreOperation} (htable : ∀ op ∈ ops, op.table = .userTasks)
    (hsave : store.executeTransaction ops = .ok store') :
    store'.instances = store.instances ∧ store'.tokens = store.tokens ∧
      store'.scopes = store.scopes := by
  obtain ⟨hinstances, htokens, hscopes, -⟩ := executeTransaction_tables hsave
  rw [foldl_spares writeInstances_of_table htable (by decide)] at hinstances
  rw [foldl_spares writeTokens_of_table htable (by decide)] at htokens
  rw [foldl_spares writeScopes_of_table htable (by decide)] at hscopes
  exact ⟨hinstances, htokens, hscopes⟩

theorem forest_empty : (∅ : Store).Forest 0 where
  known _ hs := absurd hs List.not_mem_nil
  found _ hrow := absurd hrow List.not_mem_nil
  apart _ hrow := absurd hrow List.not_mem_nil

/-- The scopes of every store in service are such. -/
theorem Served.forest {C : Change → Prop} (h : Served definitions C store nextId) :
    store.Forest nextId := by
  induction h with
  | empty => exact forest_empty
  | start served hid h hC hsave ih => exact (replants_start served.sound hid h hsave).forest ih
  | cycle served hid hdone hC ih => exact (hdone.replants served.sound ih hid).forest ih
  | tasks served htable hC hsave ih =>
    obtain ⟨hinstances, htokens, hscopes⟩ := tables_tasks htable hsave
    have hget : ∀ id, Store.getScope _ id = Store.getScope _ id := fun id =>
      congrArg (fun m : KeyedMap VariableScope.id => m.get? id) hscopes
    refine ⟨hscopes ▸ ih.known, ?_, ?_⟩
    · simp only [hinstances, hget, Store.InUse, htokens]
      exact ih.found
    · simp only [hinstances, Store.InUse, htokens]
      exact ih.apart

/-- In every store in service, a walk from the scope of a token ends at the root scope of its
instance; it visits no scope twice, finds only scopes that are loaded with the instance, and none
that another instance uses. -/
theorem Served.walk {C : Change → Prop} (h : Served definitions C store nextId) {row : InstanceRow}
    (hrow : row ∈ store.instances.values) {t : Token} (ht : t ∈ store.tokens.values)
    (hinst : t.instanceId = row.data.id) :
    ∃ chain, store.Chain (some t.scopeId) chain ∧
      chain.getLast?.map (·.id) = some row.data.rootScopeId ∧ (chain.map (·.id)).Nodup ∧
      ∀ s ∈ chain, (∀ order, s ∈ (store.loaded order (reviveInstance row.data)).scopes) ∧
        ∀ other ∈ store.instances.values, other.data.id ≠ row.data.id →
          ¬ store.InUse other.data s.id := by
  have hforest := h.forest
  obtain ⟨chain, hchain, huse, hlast⟩ := hforest.walks hrow (.inr ⟨t, ht, hinst, rfl⟩)
  refine ⟨chain, hchain, hlast, hchain.nodup id_of_get?, fun s hs =>
    ⟨fun order => ?_, fun other hother hne huse' => ?_⟩⟩
  · obtain ⟨before, after, rfl, hfrom⟩ := hchain.from_mem id_of_get? hs
    cases hfrom with
    | link hget _ => exact mem_loaded_scopes.2 ⟨huse s hs, hget⟩
  · exact hne (congrArg (·.data.id) (hforest.apart other hother row hrow s.id huse' (huse s hs)))

/-! ## Everybody sees the same -/

theorem length_le_of_walk (h : store.Chain (some nextId) chain) :
    chain.length ≤ store.scopes.values.length := length_le_of_chain h

/-- The token of a task, in whatever order the rows come. -/
theorem find?_getAllTokens (order : RowOrder) {t : Token} (ht : t ∈ store.tokens.values) :
    (store.getAllTokens order t.instanceId).find? (·.id = t.id) = some (reviveToken t) := by
  have hnd : ((store.getAllTokens order t.instanceId).map Token.id).Nodup := by
    show ((((order.tokens _).map reviveToken)).map Token.id).Nodup
    rw [List.map_map]
    refine (((order.perm_tokens _).map Token.id).nodup_iff).2 ?_
    exact store.tokens.nodup.sublist (List.filter_sublist.map _)
  have hmem : reviveToken t ∈ store.getAllTokens order t.instanceId :=
    List.mem_map_of_mem ((order.perm_tokens _).symm.subset
      (List.mem_filter.2 ⟨ht, decide_eq_true rfl⟩))
  cases hfind : (store.getAllTokens order t.instanceId).find? (·.id = t.id) with
  | none => exact absurd (decide_eq_true rfl) (List.find?_eq_none.1 hfind (reviveToken t) hmem)
  | some x =>
    have hid := List.find?_some hfind
    rw [List.inj_on_of_nodup_map hnd (List.mem_of_find?_eq_some hfind) hmem (of_decide_eq_true hid)]

/-- For a token of a store in service there is one set of variables, in which a name means what it
means in the innermost scope that knows it.  The engine finds it on the loaded state, the history
takes it into its snapshot, a worker gives it to the handler of the token, and `GET /tasks/:id`
shows it for the task of the token; unless the instance has a variable `__proto__`, which only the
last of these shows. -/
theorem Served.same_variables {C : Change → Prop} (h : Served definitions C store nextId)
    {row : InstanceRow} (hrow : row ∈ store.instances.values) {t : Token}
    (ht : t ∈ store.tokens.values) (hinst : t.instanceId = row.data.id)
    (hordinary : ∀ s ∈ store.scopes.values, store.InUse row.data s.id → s.Ordinary) {fuel : Nat}
    (hfuel : store.scopes.values.length ≤ fuel) :
    ∃ (chain : List VariableScope) (vars : Variables), store.Chain (some t.scopeId) chain ∧
      (∀ name, vars.lookup name = chain.findSome? fun scope => scope.vars.lookup name) ∧
      (∀ order options, (ExecutionContext.create
        (some (store.loaded order (reviveInstance row.data))) options).resolveScope t.scopeId =
          .ok vars) ∧
      (∀ order jsonLength maxBytes, snapshotFor jsonLength maxBytes
        (store.loaded order (reviveInstance row.data)) t.scopeId =
          if vars.values.isEmpty then none else if maxBytes < jsonLength vars then none
            else some vars) ∧
      (TaskWorker.contextVariables fuel (reviveToken t)).alone store = some vars ∧
      ∀ order, ∀ task ∈ store.userTasks.values, task.instanceId = row.data.id →
        task.tokenId = t.id →
        (getTask order fuel task.id).alone store = some (.found task (unwrapVariables vars)) := by
  have hforest := h.forest
  have huse : store.InUse row.data t.scopeId := .inr ⟨t, ht, hinst, rfl⟩
  obtain ⟨chain, hchain, hin, -⟩ := hforest.walks hrow huse
  have hread := getScopeChain_alone hchain ((length_le_of_walk hchain).trans hfuel)
  have hplain : ∀ s ∈ chain, s.Ordinary := fun s hs =>
    hordinary s (subset_of_chain hchain hs) (hin s hs)
  refine ⟨chain, visible chain, hchain, lookup_visible chain, fun order options => ?_,
    fun order jsonLength maxBytes => ?_, ?_, fun order task htask htinst htoken => ?_⟩
  · have hloaded := hforest.walk_loaded hrow order huse hchain
    unfold resolveScope
    have hscopes := scopeChain_eq hloaded (length_le_of_chain hloaded)
    simp only [ExecutionContext.create, Option.map_some, Option.getD_some]
    rw [hscopes]
    exact congrArg Except.ok (foldl_assign_eq hplain)
  · have hloaded := hforest.walk_loaded hrow order huse hchain
    have hnd := hloaded.nodup id_of_get?
    unfold snapshotFor
    simp only [snapshotChain_eq hloaded (length_le_of_chain hloaded) [] hnd, List.nil_append,
      foldl_assign_eq hplain]
  · have hscope : (reviveToken t).scopeId = t.scopeId := rfl
    simp only [TaskWorker.contextVariables, Reading.alone_bind, Reading.alone_pure, hscope, hread,
      Option.map_some, mergeScopes_eq hplain]
  · have hget : store.userTasks.get? task.id = some task := KeyedMap.get?_of_mem htask
    have hfind := find?_getAllTokens order ht
    rw [hinst, ← htinst, ← htoken] at hfind
    have hscope : (reviveToken t).scopeId = t.scopeId := rfl
    simp only [getTask, Reading.alone_bind, Reading.alone_ask, hget, hfind, hscope, hread,
      Reading.alone_pure, Option.map_some, foldl_merge_eq]

/-! ## Commits between the steps of a walk -/

/-- A change of a store in service, which may use new ids. -/
inductive Store.Turns (definitions : String → Nat → Option ProcessDefinition) :
    Store × Nat → Store × Nat → Prop
  | start {store store' : Store} {nextId : Nat} {d : ProcessDefinition} {fuel : Nat}
      {vars : Option Variables} {correlationKey businessKey : Option String}
      {options : ExecuteOptions} {result : EngineResult} (hid : nextId ≤ options.firstId)
      (h : execute d fuel (.startProcess vars correlationKey businessKey) none options = .ok result)
      {firstTaskId : Nat}
      (hsave : store.executeTransaction (computeStoreOps true none none result.newState ++
        buildUserTaskCreationOps firstTaskId result.events d) = .ok store') :
      Turns definitions (store, nextId) (store', result.nextId)
  | cycle {store store' : Store} {nextId : Nat} {c : Cycle} {instanceId : Nat}
      {d : ProcessDefinition} {state : EngineState} {version : Nat} {result : EngineResult}
      {ops : List StoreOperation} (hid : nextId ≤ c.options.firstId)
      (hdone : c.Done definitions instanceId store d state version result ops store') :
      Turns definitions (store, nextId) (store', result.nextId)
  | tasks {store store' : Store} {nextId : Nat} {ops : List StoreOperation}
      (htable : ∀ op ∈ ops, op.table = .userTasks)
      (hsave : store.executeTransaction ops = .ok store') :
      Turns definitions (store, nextId) (store', nextId)

theorem Served.turns {x y : Store × Nat} (h : Served definitions (fun _ => True) x.1 x.2)
    (hturns : Store.Turns definitions x y) : Served definitions (fun _ => True) y.1 y.2 := by
  cases hturns with
  | start hid h' hsave => exact .start h hid h' trivial hsave
  | cycle hid hdone => exact .cycle h hid hdone trivial
  | tasks htable hsave => exact .tasks h htable trivial hsave

theorem VariableScope.Stands.trans {s x y : VariableScope} (h : s.Stands x) (h' : x.Stands y) :
    s.Stands y := ⟨h'.1.trans h.1, h'.2.trans h.2⟩

theorem Store.Turns.keeps {x y : Store × Nat} (h : Served definitions (fun _ => True) x.1 x.2)
    (hturns : Store.Turns definitions x y) : x.1.Keeps y.1 := by
  cases hturns with
  | start hid h' hsave => exact (replants_start h.sound hid h' hsave).keeps h.forest
  | cycle hid hdone => exact (hdone.replants h.sound h.forest hid).keeps h.forest
  | tasks htable hsave =>
    intro s hs
    have hscopes := (tables_tasks htable hsave).2.2
    exact ⟨s, hscopes.symm ▸ hs, rfl, rfl⟩

/-- Whatever happens to a store in service, its scopes stay where they are. -/
theorem Served.keeps {x y : Store × Nat} (h : Served definitions (fun _ => True) x.1 x.2)
    (hlater : Relation.ReflTransGen (Store.Turns definitions) x y) :
    Served definitions (fun _ => True) y.1 y.2 ∧ x.1.Keeps y.1 := by
  induction hlater with
  | refl => exact ⟨h, fun s hs => ⟨s, hs, rfl, rfl⟩⟩
  | tail _ hturns ih =>
    refine ⟨ih.1.turns hturns, fun s hs => ?_⟩
    obtain ⟨y, hy, hstands⟩ := ih.2 s hs
    obtain ⟨z, hz, hstands'⟩ := hturns.keeps ih.1 y hy
    exact ⟨z, hz, hstands.trans hstands'⟩

/-- However the service goes on between the queries of a walk from the scope of a token: the walk
ends, at the root scope, with the scopes that were around the token when it began, each as it is in
the store that was asked for it. -/
theorem Served.walk_interleaved (h : Served definitions (fun _ => True) store nextId)
    {row : InstanceRow} (hrow : row ∈ store.instances.values) {t : Token}
    (ht : t ∈ store.tokens.values)
    (hinst : t.instanceId = row.data.id) {fuel : Nat} (hfuel : store.scopes.values.length ≤ fuel)
    {seen : List Store} (hseen : ∀ s ∈ seen, ∃ n,
      Relation.ReflTransGen (Store.Turns definitions) (store, nextId) (s, n))
    {result : Option (List VariableScope)}
    (hgives : Reading.Gives (getScopeChain fuel (some t.scopeId)) seen result) :
    ∃ chain found, store.Chain (some t.scopeId) chain ∧
      chain.getLast?.map (·.id) = some row.data.rootScopeId ∧ result = some found ∧
      found.map (·.id) = chain.map (·.id) ∧
      List.Forall₂ (fun scope s => Store.getScope s scope.id = some scope) found seen := by
  obtain ⟨chain, hchain, hlast, -⟩ := h.walk hrow ht hinst
  have hkeeps : ∀ s ∈ seen, store.Keeps s := by
    intro s hs
    obtain ⟨n, hlater⟩ := hseen s hs
    exact (Served.keeps (x := (store, nextId)) h hlater).2
  obtain ⟨found, hresult, hids, hall⟩ :=
    getScopeChain_gives hgives hchain ((length_le_of_walk hchain).trans hfuel) hkeeps
  exact ⟨chain, found, hchain, hlast, hresult, hids, hall⟩

/-! ## Two tasks at the same time -/

open Diagram

def pollFlows : List SequenceFlow :=
  [.between "toTasks" "start" "tasks", .between "toEnd" "tasks" "end"]

/-- A user task for each of some items, each in a scope of its own. -/
def poll : ProcessDefinition :=
  definition pollFlows [start pollFlows "start", userTasks pollFlows "tasks",
    finish pollFlows "end" .none]

/-- The first of two tasks is that of the token 5, in the scope 4 within the root scope 1. -/
def Store.polled (store : Store) : Bool :=
  (store.instances.get? 0).any (·.data.rootScopeId = 1) &&
    (store.tokens.get? 5).any (fun t => t.scopeId = 4 && t.instanceId = 0) &&
    (store.userTasks.get? 0).any (fun task => task.instanceId = 0 && task.tokenId = 5) &&
    (store.getScope 4).any (·.parentScopeId = some 1) && store.scopes.values.length ≤ 3 &&
    store.scopes.values.all (·.Ordinary)

theorem Store.polled.rows (h : store.polled = true) :
    (∃ row ∈ store.instances.values, row.data.id = 0 ∧ row.data.rootScopeId = 1) ∧
      (∃ t ∈ store.tokens.values, t.id = 5 ∧ t.scopeId = 4 ∧ t.instanceId = 0) ∧
      (∃ task ∈ store.userTasks.values, task.id = 0 ∧ task.instanceId = 0 ∧ task.tokenId = 5) ∧
      (∃ s, store.getScope 4 = some s ∧ s.parentScopeId = some 1) ∧ store.scopes.values.length ≤ 3 ∧
      ∀ s ∈ store.scopes.values, s.Ordinary := by
  simp only [Store.polled, Bool.and_eq_true, decide_eq_true_eq] at h
  obtain ⟨⟨⟨⟨⟨hrow, ht⟩, htask⟩, hscope⟩, hlength⟩, hordinary⟩ := h
  obtain ⟨row, hrow, hroot⟩ := (Option.any_eq_true ..).1 hrow
  obtain ⟨t, ht, htoken⟩ := (Option.any_eq_true ..).1 ht
  obtain ⟨task, htask, hrecord⟩ := (Option.any_eq_true ..).1 htask
  obtain ⟨s, hs, hparent⟩ := (Option.any_eq_true ..).1 hscope
  simp only [Bool.and_eq_true, decide_eq_true_eq] at hroot htoken hrecord hparent
  have hid : row.id = 0 := KeyedMap.key_of_get? hrow
  exact ⟨⟨row, KeyedMap.mem_of_get? hrow, hid, hroot⟩,
    ⟨t, KeyedMap.mem_of_get? ht, KeyedMap.key_of_get? ht, htoken⟩,
    ⟨task, KeyedMap.mem_of_get? htask, KeyedMap.key_of_get? htask, hrecord⟩, ⟨s, hs, hparent⟩,
      hlength,
    fun s hs => of_decide_eq_true (List.all_eq_true.1 hordinary s hs)⟩

theorem walk_poll : ∃ store nextId, Store.opened poll twoItems = some (store, nextId) ∧
    ∃ chain, store.Chain (some 4) chain ∧ chain.getLast?.map (·.id) = some 1 := by
  have hruns : (Store.opened poll twoItems).any (fun opened => opened.1.polled) = true := by
    decide +kernel
  obtain ⟨⟨store, nextId⟩, hopened, hfacts⟩ := (Option.any_eq_true ..).1 hruns
  obtain ⟨⟨row, hrow, hid, hroot⟩, ⟨t, ht, -, hscope, hinst⟩, -⟩ := Store.polled.rows hfacts
  have hserved : Served (fun _ _ => some poll) (fun _ => True) store nextId :=
    served_opened (fun _ _ => trivial) hopened
  obtain ⟨chain, hchain, hlast, -⟩ := hserved.walk hrow ht (hinst.trans hid.symm)
  exact ⟨store, nextId, hopened, chain, hscope ▸ hchain, hroot ▸ hlast⟩

theorem same_variables_poll : ∃ store nextId, Store.opened poll twoItems = some (store, nextId) ∧
    ∃ task vars, task.tokenId = 5 ∧
      (getTask .inserted 3 0).alone store = some (.found task (unwrapVariables vars)) := by
  have hruns : (Store.opened poll twoItems).any (fun opened => opened.1.polled) = true := by
    decide +kernel
  obtain ⟨⟨store, nextId⟩, hopened, hfacts⟩ := (Option.any_eq_true ..).1 hruns
  obtain ⟨⟨row, hrow, hid, -⟩, ⟨t, ht, htid, -, hinst⟩, ⟨task, htask, hzero, htinst, htoken⟩, -,
    hlength,
    hordinary⟩ := Store.polled.rows hfacts
  have hserved : Served (fun _ _ => some poll) (fun _ => True) store nextId :=
    served_opened (fun _ _ => trivial) hopened
  obtain ⟨_, vars, -, -, -, -, -, hshown⟩ :=
    hserved.same_variables hrow ht (hinst.trans hid.symm) (fun s hs _ => hordinary s hs) hlength
  have htask := hshown .inserted task htask (htinst.trans hid.symm) (htoken.trans htid.symm)
  exact ⟨store, nextId, hopened, task, vars, htoken, hzero ▸ htask⟩

/-- A walk of two steps. -/
theorem getScopeChain_two {i p : Nat} {s r : VariableScope} (hs : store.getScope i = some s)
    (hp : s.parentScopeId = some p) (hr : store'.getScope p = some r)
    (hnone : r.parentScopeId = none) :
    Reading.Gives (getScopeChain 3 (some i)) [store, store'] (some [s, r]) := by
  refine .query ?_
  simp only [Reading.bind, hs, bind, hp]
  refine .query ?_
  simp only [Reading.bind, hr, bind, hnone, getScopeChain, pure]
  exact .done _

/-- Between the two queries of the walk for the first task, the second one is completed. -/
theorem walk_interleaved_poll :
    ∃ store nextId store', Store.opened poll twoItems = some (store, nextId) ∧
    ((requestCompletes 7 8).program (fun _ _ => some poll) 0).perform store = some store' ∧
    ∃ found, Reading.Gives (getScopeChain 3 (some 4)) [store, store'] (some found) ∧
      found.map (·.id) = [4, 1] := by
  have hruns : (Store.opened poll twoItems).any (fun (store, nextId) => store.polled ∧ nextId ≤ 8 ∧
      (((requestCompletes 7 8).program (fun _ _ => some poll) 0).perform store).any (fun store' =>
        (store'.getScope 1).any (·.parentScopeId = none))) = true := by decide +kernel
  obtain ⟨⟨store, nextId⟩, hopened, hfacts⟩ := (Option.any_eq_true ..).1 hruns
  simp only [decide_eq_true_eq] at hfacts
  obtain ⟨hpolled, hle, hperformed⟩ := hfacts
  obtain ⟨store', hperform, hafter⟩ := (Option.any_eq_true ..).1 hperformed
  obtain ⟨root, hroot, hnone⟩ := (Option.any_eq_true ..).1 hafter
  obtain ⟨⟨row, hrow, hid, hrootId⟩, ⟨t, ht, -, hscope, hinst⟩, -, ⟨s, hs, hparent⟩, hlength, -⟩ :=
    Store.polled.rows hpolled
  have hserved : Served (fun _ _ => some poll) (fun _ => True) store nextId :=
    served_opened (fun _ _ => trivial) hopened
  obtain ⟨d, state, version, result, ops, hdone⟩ := (Cycle.perform_iff _ _ _ _ _).1 hperform
  have hturn : Store.Turns (fun _ _ => some poll) (store, nextId) (store', result.nextId) :=
    .cycle hle hdone
  have hgives := getScopeChain_two hs hparent hroot (of_decide_eq_true hnone)
  have hseen : ∀ x ∈ [store, store'], ∃ n, Relation.ReflTransGen
      (Store.Turns fun _ _ => some poll) (store, nextId) (x, n) := by
    intro x hx
    rcases List.mem_cons.1 hx with rfl | hx
    · exact ⟨nextId, .refl⟩
    · obtain rfl := List.mem_singleton.1 hx
      exact ⟨_, .single hturn⟩
  obtain ⟨-, found, -, -, heq, -, -⟩ := hserved.walk_interleaved hrow ht (hinst.trans hid.symm)
    hlength hseen (hscope.symm ▸ hgives)
  cases heq
  have hsid : s.id = 4 := KeyedMap.key_of_get? hs
  have hrid : root.id = 1 := KeyedMap.key_of_get? hroot
  exact ⟨store, nextId, store', hopened, hperform, [s, root], hgives, by simp [hsid, hrid]⟩

end NexusWorkflow
