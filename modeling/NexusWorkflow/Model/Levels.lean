import NexusWorkflow.Model.Definition

/-!
# The levels of a definition

A definition is a tree: every sub-process holds a level of elements and flows of its own.  This
module lists the elements of the tree and says inside which sub-process an element lies.
-/

namespace NexusWorkflow

/-! ## The elements of the tree -/

mutual

def BpmnFlowElement.elementsInside : BpmnFlowElement → List BpmnFlowElement
  | .subProcess _ _ elements _ _ => elementsInTree elements
  | _ => []

/-- The elements of a level and of all levels below it. -/
def elementsInTree : List BpmnFlowElement → List BpmnFlowElement
  | [] => []
  | e :: rest => e :: (e.elementsInside ++ elementsInTree rest)

end

theorem mem_elementsInTree_of_mem {l : List BpmnFlowElement} {e : BpmnFlowElement} (h : e ∈ l) :
    e ∈ elementsInTree l := by
  induction l with
  | nil => cases h
  | cons x rest ih =>
    rw [elementsInTree]
    rcases List.mem_cons.1 h with rfl | h
    · exact List.mem_cons_self
    · exact List.mem_cons_of_mem _ (List.mem_append_right _ (ih h))

mutual

theorem BpmnFlowElement.findInside_mem {e r : BpmnFlowElement} {id : String}
    (h : e.findInside id = some r) : r ∈ e.elementsInside := by
  cases e with
  | subProcess e t elements flows s => exact findElementInTree_mem (l := elements) h
  | _ => simp [BpmnFlowElement.findInside] at h

/-- The search finds elements of the tree. -/
theorem findElementInTree_mem {l : List BpmnFlowElement} {id : String} {r : BpmnFlowElement}
    (h : findElementInTree l id = some r) : r ∈ elementsInTree l := by
  cases l with
  | nil => simp [findElementInTree] at h
  | cons e rest =>
    rw [findElementInTree] at h
    rw [elementsInTree]
    split_ifs at h with hid
    · rw [← Option.some.inj h]
      exact List.mem_cons_self
    · refine List.mem_cons_of_mem _ (List.mem_append.2 ?_)
      rcases Option.or_eq_some_iff.1 h with h | ⟨-, h⟩
      · exact Or.inl (BpmnFlowElement.findInside_mem h)
      · exact Or.inr (findElementInTree_mem h)

end

section Search

variable {α : Type} {query : List BpmnFlowElement → List SequenceFlow → Option α} {a : α}

mutual

theorem BpmnFlowElement.search_level {e : BpmnFlowElement} (h : e.search query = some a) :
    ∃ level flows, query level flows = some a ∧ ∀ x ∈ level, x ∈ e.elementsInside := by
  cases e with
  | subProcess e t elements flows s =>
    rw [BpmnFlowElement.search] at h
    rcases Option.or_eq_some_iff.1 h with h | ⟨-, h⟩
    · exact ⟨elements, flows, h, fun x hx => mem_elementsInTree_of_mem hx⟩
    · exact searchNested_level (l := elements) h
  | _ => simp [BpmnFlowElement.search] at h

theorem searchNested_level {l : List BpmnFlowElement} (h : searchNested query l = some a) :
    ∃ level flows, query level flows = some a ∧ ∀ x ∈ level, x ∈ elementsInTree l := by
  cases l with
  | nil => simp [searchNested] at h
  | cons e rest =>
    rw [searchNested] at h
    rw [elementsInTree]
    rcases Option.or_eq_some_iff.1 h with h | ⟨-, h⟩
    · obtain ⟨level, flows, hquery, hlevel⟩ := BpmnFlowElement.search_level h
      exact ⟨level, flows, hquery, fun x hx =>
        List.mem_cons_of_mem _ (List.mem_append_left _ (hlevel x hx))⟩
    · obtain ⟨level, flows, hquery, hlevel⟩ := searchNested_level h
      exact ⟨level, flows, hquery, fun x hx =>
        List.mem_cons_of_mem _ (List.mem_append_right _ (hlevel x hx))⟩

end

/-- An answer comes from one level of the tree. -/
theorem searchTree_level {l : List BpmnFlowElement} {flows : List SequenceFlow}
    (h : searchTree query l flows = some a) :
    ∃ level flows, query level flows = some a ∧ ∀ x ∈ level, x ∈ elementsInTree l := by
  rcases Option.or_eq_some_iff.1 h with h | ⟨-, h⟩
  · exact ⟨l, flows, h, fun x hx => mem_elementsInTree_of_mem hx⟩
  · exact searchNested_level h

end Search

theorem nonEmpty_eq_some {α : Type} {l l' : List α} (h : nonEmpty l = some l') : l' = l := by
  unfold nonEmpty at h
  split_ifs at h
  exact (Option.some.inj h).symm

theorem findBoundariesInTree_mem {l : List BpmnFlowElement} {task : String}
    {b : BoundaryEventElement} (h : b ∈ findBoundariesInTree l task) :
    .boundaryEvent b ∈ elementsInTree l ∧ b.attachedToRef = task := by
  unfold findBoundariesInTree at h
  cases hs : searchTree (fun elements _ => nonEmpty (elements.filterMap (·.boundaryOf task))) l []
  with
  | none => simp [hs] at h
  | some found =>
    rw [hs, Option.getD_some] at h
    obtain ⟨level, flows, hquery, hlevel⟩ := searchTree_level hs
    rw [nonEmpty_eq_some hquery] at h
    obtain ⟨e, he, hb⟩ := List.mem_filterMap.1 h
    cases e with
    | boundaryEvent x =>
      simp only [BpmnFlowElement.boundaryOf] at hb
      split_ifs at hb with hx
      obtain rfl := Option.some.inj hb
      exact ⟨hlevel _ he, hx⟩
    | _ => simp [BpmnFlowElement.boundaryOf] at hb

/-! ## The sub-process around an element -/

mutual

def BpmnFlowElement.levelInside : BpmnFlowElement → String → Option (Option String)
  | .subProcess e _ elements _ _, id => levelOf (some e.id) elements id
  | _, _ => none

/-- The level of the first element of a given id, in the order of `findElementInTree`: the id of the
sub-process that it is directly inside of, or `none` on the top level. -/
def levelOf : Option String → List BpmnFlowElement → String → Option (Option String)
  | _, [], _ => none
  | level, e :: rest, id =>
      if e.id = id then some level else (e.levelInside id).or (levelOf level rest id)

end

/-- The element is a sub-process. -/
def BpmnFlowElement.isSubProcess : BpmnFlowElement → Bool
  | .subProcess _ _ _ _ _ => true
  | _ => false

mutual

theorem BpmnFlowElement.levelInside_mem {e : BpmnFlowElement} {id s : String}
    (h : e.levelInside id = some (some s)) :
    (e.isSubProcess = true ∧ e.id = s) ∨
      ∃ x ∈ e.elementsInside, x.isSubProcess = true ∧ x.id = s := by
  cases e with
  | subProcess e t elements flows start =>
    rcases levelOf_mem (l := elements) h with hs | hs
    · exact Or.inl ⟨rfl, Option.some.inj hs⟩
    · exact Or.inr hs
  | _ => simp [BpmnFlowElement.levelInside] at h

/-- The level is the one asked for, or that of a sub-process in the tree. -/
theorem levelOf_mem {level : Option String} {l : List BpmnFlowElement} {id s : String}
    (h : levelOf level l id = some (some s)) :
    level = some s ∨ ∃ x ∈ elementsInTree l, x.isSubProcess = true ∧ x.id = s := by
  cases l with
  | nil => simp [levelOf] at h
  | cons e rest =>
    rw [levelOf] at h
    rw [elementsInTree]
    split_ifs at h with hid
    · exact Or.inl (Option.some.inj h)
    · rcases Option.or_eq_some_iff.1 h with h | ⟨-, h⟩
      · refine Or.inr ?_
        rcases BpmnFlowElement.levelInside_mem h with ⟨hsub, hs⟩ | ⟨x, hx, hs⟩
        · exact ⟨e, List.mem_cons_self, hsub, hs⟩
        · exact ⟨x, List.mem_cons_of_mem _ (List.mem_append_left _ hx), hs⟩
      · rcases levelOf_mem h with hs | ⟨x, hx, hs⟩
        · exact Or.inl hs
        · exact Or.inr ⟨x, List.mem_cons_of_mem _ (List.mem_append_right _ hx), hs⟩

end

/-- The start event inside a sub-process. -/
def BpmnFlowElement.startInside? : BpmnFlowElement → Option String
  | .subProcess _ _ _ _ startEventId => some startEventId
  | _ => none

/-- The element as a gateway. -/
def BpmnFlowElement.gateway? : BpmnFlowElement → Option GatewayElement
  | .gateway g => some g
  | _ => none

/-- The element as a boundary event. -/
def BpmnFlowElement.boundary? : BpmnFlowElement → Option BoundaryEventElement
  | .boundaryEvent b => some b
  | _ => none

namespace ProcessDefinition

variable (d : ProcessDefinition)

def allElements : List BpmnFlowElement := elementsInTree d.elements

/-- The innermost sub-process in which the element of the given id lies. -/
def enclosing (id : String) : Option String := (levelOf none d.elements id).join

/-- The flow, if there is one of this id, leads to an element of the given level. -/
def LeadsTo (flowId : String) (level : Option String) : Prop :=
  match d.getFlow flowId with
  | .ok flow => d.enclosing flow.targetRef = level
  | .error _ => True

instance (flowId : String) (level : Option String) : Decidable (d.LeadsTo flowId level) := by
  unfold LeadsTo
  split <;> infer_instance

/-- Flows and boundary events stay on one level of the tree, and start events are where they
belong. -/
@[mk_iff]
structure WellScoped : Prop where
  start : d.enclosing d.startEventId = none
  top : ∀ e ∈ d.elements, d.enclosing e.id = none
  inner : ∀ e ∈ d.allElements, ∀ startEventId ∈ e.startInside?, d.enclosing startEventId = some e.id
  named : ∀ e ∈ d.allElements, e.isSubProcess = true → e.id ≠ ""
  flows : ∀ e ∈ d.allElements, ∀ flowId ∈ e.outgoingFlows ++ (d.getOutgoingFlows e.id).map (·.id),
    d.LeadsTo flowId (d.enclosing e.id)
  branches : ∀ e ∈ d.allElements, ∀ flow ∈ d.getOutgoingFlows e.id,
    d.enclosing flow.targetRef = d.enclosing e.id
  boundaries : ∀ e ∈ d.allElements, ∀ b ∈ e.boundary?,
    d.enclosing b.id = d.enclosing b.attachedToRef

instance : Decidable d.WellScoped := decidable_of_iff _ (wellScoped_iff d).symm

variable {d}

theorem LeadsTo.of_getFlow {flowId : String} {level : Option String} {flow : SequenceFlow}
    (h : d.LeadsTo flowId level) (hflow : d.getFlow flowId = .ok flow) :
    d.enclosing flow.targetRef = level := by
  unfold LeadsTo at h
  rwa [hflow] at h

theorem mem_allElements {id : String} {e : BpmnFlowElement} (h : d.getElement id = .ok e) :
    e ∈ d.allElements := by
  unfold getElement at h
  cases hf : findElementInTree d.elements id with
  | none => simp [hf] at h
  | some x =>
    rw [hf] at h
    rw [← Except.ok.inj h]
    exact findElementInTree_mem hf

theorem mem_findBoundariesFor {id : String} {b : BoundaryEventElement}
    (h : b ∈ d.findBoundariesFor id) : .boundaryEvent b ∈ d.allElements ∧ b.attachedToRef = id :=
  findBoundariesInTree_mem h

namespace WellScoped

theorem enclosing_ne_empty (hd : d.WellScoped) (id : String) : d.enclosing id ≠ some "" := by
  intro h
  unfold enclosing at h
  rw [Option.join_eq_some_iff] at h
  rcases levelOf_mem h with h | ⟨x, hx, hsub, hid⟩
  · cases h
  · exact hd.named x hx hsub hid

/-- The tag of a token is read through `truthy`. -/
theorem truthy_enclosing (hd : d.WellScoped) (id : String) :
    truthy (d.enclosing id) = d.enclosing id := by
  cases h : d.enclosing id with
  | none => rfl
  | some s =>
    have hs : s ≠ "" := fun hs => hd.enclosing_ne_empty id (by rw [h, hs])
    simp [truthy, Option.filter, hs]

/-- A boundary event and the targets of its flows are on the level of the activity. -/
theorem boundary (hd : d.WellScoped) {id : String} {b : BoundaryEventElement}
    (h : b ∈ d.findBoundariesFor id) :
    d.enclosing b.id = d.enclosing id ∧
      ∀ flowId ∈ b.outgoingFlows, d.LeadsTo flowId (d.enclosing id) := by
  obtain ⟨hb, rfl⟩ := mem_findBoundariesFor h
  have hlevel := hd.boundaries _ hb b rfl
  refine ⟨hlevel, fun flowId hf => ?_⟩
  rw [← hlevel]
  exact hd.flows _ hb flowId (List.mem_append_left _ hf)

end WellScoped

end ProcessDefinition

end NexusWorkflow
