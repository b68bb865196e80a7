import NexusWorkflow.Model.Levels
import NexusWorkflow.Run.Diagram

/-!
# Listed flows and drawn flows

A diagram says twice where its flows run: every element lists them, and every flow names its ends.
The engine moves a token on by the list of its element, and gateways go by the ends.  The parser
reads both from different places of the document and does not compare them, so the two agree in the
definition exactly if they agree in the document.
-/

namespace NexusWorkflow

/-! ## In the definition -/

/-- The process, or what a sub-process holds. -/
structure FlowLevel where
  elements : List BpmnFlowElement
  flows : List SequenceFlow

mutual

def BpmnFlowElement.levels : BpmnFlowElement → List FlowLevel
  | .subProcess _ _ elements flows _ => ⟨elements, flows⟩ :: levelsBelow elements
  | _ => []

/-- The levels inside the elements. -/
def levelsBelow : List BpmnFlowElement → List FlowLevel
  | [] => []
  | e :: rest => e.levels ++ levelsBelow rest

end

def ProcessDefinition.levels (d : ProcessDefinition) : List FlowLevel :=
  ⟨d.elements, d.sequenceFlows⟩ :: levelsBelow d.elements

/-- Every element of the level lists the flows that leave it and those that arrive. -/
def FlowLevel.Agrees (level : FlowLevel) : Prop := ∀ e ∈ level.elements,
  (∀ id, id ∈ e.outgoingFlows ↔ ∃ flow ∈ level.flows, flow.id = id ∧ flow.sourceRef = e.id) ∧
    ∀ id, id ∈ e.incomingFlows ↔ ∃ flow ∈ level.flows, flow.id = id ∧ flow.targetRef = e.id

/-- The lists of the elements and the ends of the flows give one relation, on every level. -/
def ProcessDefinition.OneFlowRelation (d : ProcessDefinition) : Prop :=
  ∀ level ∈ d.levels, level.Agrees

/-! ## In the document -/

namespace XmlElement

/-- The tags that are read as elements of a level. -/
def elementKeys : List String := leafParsers.map (·.1) ++ ["subProcess", "transaction"]

def flowElements (raw : XmlElement) : List XmlElement := raw.children.filter (·.tag ∈ elementKeys)

mutual

/-- The process or sub-process itself, and the sub-processes inside it. -/
def levels : XmlElement → List XmlElement
  | element tag attributes text children => element tag attributes text children ::
      (levelsOf "subProcess" children ++ levelsOf "transaction" children)

def levelsOf (key : String) : List XmlElement → List XmlElement
  | [] => []
  | raw :: rest => if raw.tag = key then raw.levels ++ levelsOf key rest else levelsOf key rest

end

/-- `String(raw['@_name'] ?? '')`. -/
def attrText (raw : XmlElement) (name : String) : String := (raw.attr name).getD ""

/-- The texts of the children of the key. -/
def listed (raw : XmlElement) (key : String) : List String := (raw.all key).map (·.asString)

/-- The children `outgoing` and `incoming` of the level's elements are there, and name the flows
that have the element as their `sourceRef` and `targetRef`. -/
def Agrees (raw : XmlElement) : Prop := ∀ node ∈ raw.flowElements,
  (∀ id, id ∈ node.listed "outgoing" ↔ ∃ flow ∈ raw.all "sequenceFlow",
    flow.attrText "id" = id ∧ flow.attrText "sourceRef" = node.attrText "id") ∧
  ∀ id, id ∈ node.listed "incoming" ↔ ∃ flow ∈ raw.all "sequenceFlow",
    flow.attrText "id" = id ∧ flow.attrText "targetRef" = node.attrText "id"

end XmlElement

/-- The process that `parseBpmn` reads. -/
def processOf (parsed : List XmlElement) : Option XmlElement :=
  (valueAt parsed "definitions").bind fun definitions => valueAt definitions.children "process"

/-! ## What is read of a level -/

/-- The parts of the elements that the relation is about are those read from the nodes. -/
def ReadFrom (nodes : List XmlElement) (elements : List BpmnFlowElement) : Prop :=
  ∀ b, (∃ e ∈ elements, e.base = b) ↔ ∃ node ∈ nodes, baseElement node = b

/-- The level is what is read from the process or sub-process. -/
structure FlowLevel.Reads (level : FlowLevel) (raw : XmlElement) : Prop where
  elements : ReadFrom raw.flowElements level.elements
  flows : ∀ id source target,
    (∃ flow ∈ level.flows, flow.id = id ∧ flow.sourceRef = source ∧ flow.targetRef = target) ↔
      ∃ flow ∈ raw.all "sequenceFlow", flow.attrText "id" = id ∧
        flow.attrText "sourceRef" = source ∧
        flow.attrText "targetRef" = target

theorem FlowLevel.Reads.agrees_iff {level : FlowLevel} {raw : XmlElement} (h : level.Reads raw) :
    level.Agrees ↔ raw.Agrees := by
  have hout : ∀ id source, (∃ flow ∈ level.flows, flow.id = id ∧ flow.sourceRef = source) ↔
      ∃ flow ∈ raw.all "sequenceFlow", flow.attrText "id" = id ∧
        flow.attrText "sourceRef" = source := by
    intro id source
    constructor
    · rintro ⟨flow, hflow, hid, hsource⟩
      obtain ⟨f, hf, hid, hsource, -⟩ := (h.flows _ _ _).1 ⟨flow, hflow, hid, hsource, rfl⟩
      exact ⟨f, hf, hid, hsource⟩
    · rintro ⟨flow, hflow, hid, hsource⟩
      obtain ⟨f, hf, hid, hsource, -⟩ := (h.flows _ _ _).2 ⟨flow, hflow, hid, hsource, rfl⟩
      exact ⟨f, hf, hid, hsource⟩
  have hin : ∀ id target, (∃ flow ∈ level.flows, flow.id = id ∧ flow.targetRef = target) ↔
      ∃ flow ∈ raw.all "sequenceFlow", flow.attrText "id" = id ∧
        flow.attrText "targetRef" = target := by
    intro id target
    constructor
    · rintro ⟨flow, hflow, hid, htarget⟩
      obtain ⟨f, hf, hid, -, htarget⟩ := (h.flows _ _ _).1 ⟨flow, hflow, hid, rfl, htarget⟩
      exact ⟨f, hf, hid, htarget⟩
    · rintro ⟨flow, hflow, hid, htarget⟩
      obtain ⟨f, hf, hid, -, htarget⟩ := (h.flows _ _ _).2 ⟨flow, hflow, hid, rfl, htarget⟩
      exact ⟨f, hf, hid, htarget⟩
  -- What the relation asks of one element, by its base alone.
  have hone : ∀ b : BpmnElement,
      ((∀ id, id ∈ b.outgoingFlows ↔ ∃ flow ∈ level.flows, flow.id = id ∧ flow.sourceRef = b.id) ∧
        ∀ id, id ∈ b.incomingFlows ↔ ∃ flow ∈ level.flows, flow.id = id ∧ flow.targetRef = b.id) ↔
      (∀ id, id ∈ b.outgoingFlows ↔ ∃ flow ∈ raw.all "sequenceFlow",
          flow.attrText "id" = id ∧ flow.attrText "sourceRef" = b.id) ∧
        ∀ id, id ∈ b.incomingFlows ↔ ∃ flow ∈ raw.all "sequenceFlow",
          flow.attrText "id" = id ∧ flow.attrText "targetRef" = b.id := by
    intro b
    simp only [hout, hin]
  constructor
  · intro hlevel node hnode
    obtain ⟨e, he, hbase⟩ := (h.elements _).2 ⟨node, hnode, rfl⟩
    have hnode := (hone e.base).1 (hlevel e he)
    rw [hbase] at hnode
    exact hnode
  · intro hraw e he
    obtain ⟨node, hnode, hbase⟩ := (h.elements _).1 ⟨e, he, rfl⟩
    refine (hone e.base).2 ?_
    rw [← hbase]
    exact hraw node hnode

/-- The levels are those read from the processes and sub-processes, in some order. -/
def Match (raws : List XmlElement) (levels : List FlowLevel) : Prop :=
  (∀ level ∈ levels, ∃ raw ∈ raws, level.Reads raw) ∧ ∀ raw ∈ raws, ∃ level ∈ levels,
    level.Reads raw

theorem Match.agrees_iff {raws : List XmlElement} {levels : List FlowLevel}
    (h : Match raws levels) : (∀ level ∈ levels, level.Agrees) ↔ ∀ raw ∈ raws, raw.Agrees := by
  constructor
  · intro hlevels raw hraw
    obtain ⟨level, hlevel, hreads⟩ := h.2 raw hraw
    exact hreads.agrees_iff.1 (hlevels level hlevel)
  · intro hraws level hlevel
    obtain ⟨raw, hraw, hreads⟩ := h.1 level hlevel
    exact hreads.agrees_iff.2 (hraws raw hraw)

theorem Match.nil : Match [] [] := ⟨nofun, nofun⟩

theorem Match.append {raws raws' : List XmlElement} {levels levels' : List FlowLevel}
    (h : Match raws levels) (h' : Match raws' levels') :
    Match (raws ++ raws') (levels ++ levels') := by
  constructor
  · intro level hlevel
    rcases List.mem_append.1 hlevel with hlevel | hlevel
    · obtain ⟨raw, hraw, hreads⟩ := h.1 level hlevel
      exact ⟨raw, List.mem_append_left _ hraw, hreads⟩
    · obtain ⟨raw, hraw, hreads⟩ := h'.1 level hlevel
      exact ⟨raw, List.mem_append_right _ hraw, hreads⟩
  · intro raw hraw
    rcases List.mem_append.1 hraw with hraw | hraw
    · obtain ⟨level, hlevel, hreads⟩ := h.2 raw hraw
      exact ⟨level, List.mem_append_left _ hlevel, hreads⟩
    · obtain ⟨level, hlevel, hreads⟩ := h'.2 raw hraw
      exact ⟨level, List.mem_append_right _ hlevel, hreads⟩

theorem Match.single {raw : XmlElement} {level : FlowLevel} (h : level.Reads raw) :
    Match [raw] [level] := by
  constructor
  · intro l hl
    rw [List.mem_singleton.1 hl]
    exact ⟨raw, List.mem_singleton_self raw, h⟩
  · intro r hr
    rw [List.mem_singleton.1 hr]
    exact ⟨level, List.mem_singleton_self level, h⟩

/-! ## Elements without a level of their own -/

/-- What the parser makes has the element's base and holds no level. -/
def Leafy (parser : XmlElement → Except EngineError BpmnFlowElement) : Prop :=
  ∀ raw e, parser raw = .ok e → e.base = baseElement raw ∧ e.levels = []

theorem eventElement_base {raw : XmlElement} {e : EventElement} (h : eventElement raw = .ok e) :
    e.toBpmnElement = baseElement raw := by
  obtain ⟨_, -, h⟩ := Except.bind_eq_ok_iff.1 h
  rw [← Except.ok.inj h]

theorem leafy_event {make : EventElement → BpmnFlowElement}
    (h : ∀ e, (make e).base = e.toBpmnElement ∧ (make e).levels = []) :
    Leafy fun raw => make <$> eventElement raw := by
  intro raw e he
  obtain ⟨x, hx, rfl⟩ := Except.map_eq_ok_iff.1 he
  exact ⟨(h x).1.trans (eventElement_base hx), (h x).2⟩

theorem leafy_startEvent : Leafy parseStartEvent := by
  intro raw e he
  obtain ⟨x, hx, he⟩ := Except.bind_eq_ok_iff.1 he
  rw [← Except.ok.inj he]
  have hbase := eventElement_base hx
  exact ⟨hbase, rfl⟩

theorem leafy_boundaryEvent : Leafy parseBoundaryEvent := by
  intro raw e he
  obtain ⟨_, -, he⟩ := Except.bind_eq_ok_iff.1 he
  rw [← Except.ok.inj he]
  exact ⟨rfl, rfl⟩

theorem leafy_ok {parse : XmlElement → BpmnFlowElement}
    (h : ∀ raw, (parse raw).base = baseElement raw ∧ (parse raw).levels = []) :
    Leafy (.ok ∘ parse) := by
  intro raw e he
  rw [← Except.ok.inj he]
  exact h raw

theorem leafy_of_mem {key : String} {parser : XmlElement → Except EngineError BpmnFlowElement}
    (h : (key, parser) ∈ leafParsers) : Leafy parser := by
  have hall : ∀ p ∈ leafParsers, Leafy p.2 := by
    simp only [leafParsers, List.forall_mem_cons]
    exact ⟨leafy_startEvent, leafy_event fun _ => ⟨rfl, rfl⟩, leafy_event fun _ => ⟨rfl, rfl⟩,
      leafy_event fun _ => ⟨rfl, rfl⟩, leafy_boundaryEvent,
      leafy_ok fun _ => ⟨rfl, rfl⟩, leafy_ok fun _ => ⟨rfl, rfl⟩, leafy_ok fun _ => ⟨rfl, rfl⟩,
      leafy_ok fun _ => ⟨rfl, rfl⟩, leafy_ok fun _ => ⟨rfl, rfl⟩, leafy_ok fun _ => ⟨rfl, rfl⟩,
      leafy_ok fun _ => ⟨rfl, rfl⟩, leafy_ok fun _ => ⟨rfl, rfl⟩, leafy_ok fun _ => ⟨rfl, rfl⟩,
      nofun⟩
  exact hall _ h

theorem levelsBelow_leaves {l : List BpmnFlowElement} (h : ∀ e ∈ l, e.levels = []) :
    levelsBelow l = [] := by
  induction l with
  | nil => rfl
  | cons e rest ih =>
    rw [levelsBelow, h e List.mem_cons_self, ih fun x hx => h x (List.mem_cons_of_mem e hx)]
    rfl

theorem levelsBelow_append (l m : List BpmnFlowElement) :
    levelsBelow (l ++ m) = levelsBelow l ++ levelsBelow m := by
  induction l with
  | nil => rfl
  | cons e rest ih => rw [List.cons_append, levelsBelow, levelsBelow, ih, List.append_assoc]

theorem readFrom_append {nodes more : List XmlElement} {elements others : List BpmnFlowElement}
    (h : ReadFrom nodes elements) (h' : ReadFrom more others) :
    ReadFrom (nodes ++ more) (elements ++ others) := by
  intro b
  simp only [List.mem_append, or_and_right, exists_or]
  rw [h b, h' b]

/-- The elements of the leaf keys. -/
theorem readFrom_leaves {raw : XmlElement} {groups : List (List BpmnFlowElement)}
    (h : (leafParsers.mapM fun p => (raw.all p.1).mapM p.2) = .ok groups) :
    ReadFrom (raw.children.filter (·.tag ∈ leafParsers.map (·.1))) groups.flatten ∧
      ∀ e ∈ groups.flatten, e.levels = [] := by
  -- Every element comes from a node of its key, and the other way round.
  have hback : ∀ e ∈ groups.flatten, ∃ p ∈ leafParsers, ∃ node ∈ raw.all p.1, p.2 node = .ok e := by
    intro e he
    obtain ⟨group, hgroup, he⟩ := List.mem_flatten.1 he
    obtain ⟨p, hp, hok⟩ := Except.mem_of_mapM h hgroup
    exact ⟨p, hp, Except.mem_of_mapM hok he⟩
  refine ⟨fun b => ⟨?_, ?_⟩, fun e he => ?_⟩
  · rintro ⟨e, he, rfl⟩
    obtain ⟨p, hp, node, hnode, hok⟩ := hback e he
    obtain ⟨hchild, htag⟩ := List.mem_filter.1 hnode
    refine ⟨node, List.mem_filter.2 ⟨hchild, ?_⟩, (leafy_of_mem hp node e hok).1.symm⟩
    rw [of_decide_eq_true htag]
    exact decide_eq_true (List.mem_map_of_mem hp)
  · rintro ⟨node, hnode, rfl⟩
    obtain ⟨hchild, htag⟩ := List.mem_filter.1 hnode
    obtain ⟨p, hp, hkey⟩ := List.mem_map.1 (of_decide_eq_true htag)
    obtain ⟨group, hgroup, hok⟩ := Except.exists_of_mapM h hp
    have hall : node ∈ raw.all p.1 := List.mem_filter.2 ⟨hchild, decide_eq_true hkey.symm⟩
    obtain ⟨e, he, hparsed⟩ := Except.exists_of_mapM hok hall
    exact ⟨e, List.mem_flatten.2 ⟨group, hgroup, he⟩, (leafy_of_mem hp node e hparsed).1⟩
  · obtain ⟨p, hp, node, -, hok⟩ := hback e he
    exact (leafy_of_mem hp node e hok).2

/-! ## The tree -/

/-- What is read from the nodes of one key, with the levels inside. -/
structure ReadsKey (key : String) (children : List XmlElement) (elements : List BpmnFlowElement) :
    Prop where
  bases : ReadFrom (children.filter (·.tag = key)) elements
  levels : Match (XmlElement.levelsOf key children) (levelsBelow elements)

/-- A level is read, given what is read from its sub-processes and transactions. -/
theorem parseLevel_reads {raw : XmlElement} {children : List XmlElement}
    {subs txs : Except EngineError (List BpmnFlowElement)} {elements : List BpmnFlowElement}
    (hchildren : raw.children = children)
    (hsubs : ∀ es, subs = .ok es → ReadsKey "subProcess" children es)
    (htxs : ∀ es, txs = .ok es → ReadsKey "transaction" children es)
    (h : parseLevel raw subs txs = .ok elements) :
    ReadFrom raw.flowElements elements ∧
      Match (XmlElement.levelsOf "subProcess" children ++
        XmlElement.levelsOf "transaction" children)
        (levelsBelow elements) := by
  subst hchildren
  obtain ⟨groups, hgroups, h⟩ := Except.bind_eq_ok_iff.1 h
  obtain ⟨subs', hsubs', h⟩ := Except.bind_eq_ok_iff.1 h
  obtain ⟨txs', htxs', h⟩ := Except.bind_eq_ok_iff.1 h
  obtain rfl := Except.ok.inj h
  have hsubs := hsubs subs' hsubs'
  have htxs := htxs txs' htxs'
  obtain ⟨hleaves, hnone⟩ := readFrom_leaves hgroups
  constructor
  · intro b
    rw [readFrom_append (readFrom_append hleaves hsubs.bases) htxs.bases b]
    have hmem : ∀ node, node ∈ raw.flowElements ↔
        node ∈ raw.children.filter (·.tag ∈ leafParsers.map (·.1)) ++
          raw.children.filter (·.tag = "subProcess") ++ raw.children.filter
            (·.tag = "transaction") := by
      intro node
      simp only [XmlElement.flowElements, XmlElement.elementKeys, List.mem_append, List.mem_filter,
        decide_eq_true_eq, List.mem_cons, List.not_mem_nil, or_false, ← and_or_left, or_assoc]
    simp only [hmem]
  · rw [levelsBelow_append, levelsBelow_append, levelsBelow_leaves hnone, List.nil_append]
    exact hsubs.levels.append htxs.levels

theorem reads_flows {raw : XmlElement} {flows : List SequenceFlow} {f : XmlElement → SequenceFlow}
    (hflows : flows = (raw.all "sequenceFlow").map f)
    (hf : ∀ x, (f x).id = x.attrText "id" ∧ (f x).sourceRef = x.attrText "sourceRef" ∧
      (f x).targetRef = x.attrText "targetRef") (id source target : String) :
    (∃ flow ∈ flows, flow.id = id ∧ flow.sourceRef = source ∧ flow.targetRef = target) ↔
      ∃ flow ∈ raw.all "sequenceFlow", flow.attrText "id" = id ∧
        flow.attrText "sourceRef" = source ∧
        flow.attrText "targetRef" = target := by
  subst hflows
  constructor
  · rintro ⟨flow, hflow, hid, hsource, htarget⟩
    obtain ⟨x, hx, rfl⟩ := List.mem_map.1 hflow
    obtain ⟨h1, h2, h3⟩ := hf x
    exact ⟨x, hx, h1 ▸ hid, h2 ▸ hsource, h3 ▸ htarget⟩
  · rintro ⟨x, hx, hid, hsource, htarget⟩
    obtain ⟨h1, h2, h3⟩ := hf x
    exact ⟨f x, List.mem_map_of_mem hx, h1.trans hid, h2.trans hsource, h3.trans htarget⟩

mutual

/-- A sub-process is read with all levels inside. -/
theorem parseSubProcess_reads {isTransaction : Bool} {raw : XmlElement} {e : BpmnFlowElement}
    (h : parseSubProcess isTransaction raw = .ok e) :
    e.base = baseElement raw ∧ Match raw.levels e.levels := by
  cases raw with
  | element tag attributes text children =>
    rw [parseSubProcess] at h
    obtain ⟨elements, helements, h⟩ := Except.bind_eq_ok_iff.1 h
    obtain rfl := Except.ok.inj h
    obtain ⟨hbases, hmatch⟩ := parseLevel_reads rfl
      (fun es hes => @parseSubProcesses_reads _ _ children es hes)
      (fun es hes => @parseSubProcesses_reads _ _ children es hes) helements
    refine ⟨rfl, ?_⟩
    rw [XmlElement.levels, BpmnFlowElement.levels]
    exact (Match.single ⟨hbases, reads_flows rfl fun _ => ⟨rfl, rfl, rfl⟩⟩).append hmatch

theorem parseSubProcesses_reads {key : String} {isTransaction : Bool} {children : List XmlElement}
    {elements : List BpmnFlowElement}
    (h : parseSubProcesses key isTransaction children = .ok elements) :
    ReadsKey key children elements := by
  cases children with
  | nil =>
    rw [parseSubProcesses] at h
    obtain rfl := Except.ok.inj h
    exact ⟨fun b => by simp, .nil⟩
  | cons raw rest =>
    rw [parseSubProcesses] at h
    by_cases hkey : raw.tag = key
    · rw [if_pos hkey] at h
      obtain ⟨e, he, h⟩ := Except.bind_eq_ok_iff.1 h
      obtain ⟨others, hothers, h⟩ := Except.bind_eq_ok_iff.1 h
      obtain rfl := Except.ok.inj h
      obtain ⟨hbase, hlevels⟩ := parseSubProcess_reads he
      have hrest := parseSubProcesses_reads hothers
      constructor
      · rw [List.filter_cons_of_pos (by simpa using hkey)]
        have hone : ReadFrom [raw] [e] := fun b => by simp [hbase]
        exact readFrom_append hone hrest.bases
      · rw [XmlElement.levelsOf, if_pos hkey, levelsBelow]
        exact hlevels.append hrest.levels
    · rw [if_neg hkey] at h
      have hrest := parseSubProcesses_reads h
      constructor
      · rw [List.filter_cons_of_neg (by simpa using hkey)]
        exact hrest.bases
      · rw [XmlElement.levelsOf, if_neg hkey]
        exact hrest.levels

end

theorem parseBpmn_reads {parsed : List XmlElement} {raw : XmlElement} {result : ParseResult}
    (hraw : processOf parsed = some raw) (h : parseBpmn parsed = .ok result) :
    FlowLevel.Reads ⟨result.definition.elements, result.definition.sequenceFlows⟩ raw ∧
      Match (XmlElement.levelsOf "subProcess" raw.children ++
        XmlElement.levelsOf "transaction" raw.children)
          (levelsBelow result.definition.elements) := by
  obtain ⟨definitions, hdefinitions, hprocess⟩ := Option.bind_eq_some_iff.1 hraw
  unfold parseBpmn at h
  simp only [hdefinitions, hprocess] at h
  obtain ⟨elements, helements, h⟩ := Except.bind_eq_ok_iff.1 h
  obtain ⟨hbases, hmatch⟩ := parseLevel_reads rfl (fun _ hes => parseSubProcesses_reads hes)
    (fun _ hes => parseSubProcesses_reads hes) helements
  rw [← Except.ok.inj h]
  exact ⟨⟨hbases, reads_flows rfl fun _ => ⟨rfl, rfl, rfl⟩⟩, hmatch⟩

/-- The lists and the ends agree in the definition exactly if they agree in the document. -/
theorem oneFlowRelation_iff {parsed : List XmlElement} {raw : XmlElement} {result : ParseResult}
    (hraw : processOf parsed = some raw) (h : parseBpmn parsed = .ok result) :
    result.definition.OneFlowRelation ↔ ∀ level ∈ raw.levels, level.Agrees := by
  obtain ⟨htop, hbelow⟩ := parseBpmn_reads hraw h
  refine Match.agrees_iff ?_
  cases raw with
  | element tag attributes text children =>
    rw [XmlElement.levels]
    exact (Match.single htop).append hbelow

/-! ## Examples -/

open Diagram

/-- A sub-process between a start and an end event, with all flows listed. -/
def listedWay : List XmlElement :=
  [tag "definitions" [] [tag "process" [("id", "process")]
    [tag "startEvent" [("id", "start")] [outgoing "toSub"],
      tag "subProcess" [("id", "sub")]
        [incoming "toSub", outgoing "toEnd", tag "startEvent" [("id", "inStart")]
          [outgoing "inside"],
          tag "endEvent" [("id", "inEnd")] [incoming "inside"],
          flowTag "inside" "inStart" "inEnd"],
      tag "endEvent" [("id", "end")] [incoming "toEnd"], flowTag "toSub" "start" "sub",
      flowTag "toEnd" "sub" "end"]]]

/-- A user task between a start and an end event, without the children that nobody has to write. -/
def unlistedWay : List XmlElement :=
  [tag "definitions" [] [tag "process" [("id", "process")]
    [tag "startEvent" [("id", "start")] [], tag "userTask" [("id", "ask")] [],
      tag "endEvent" [("id", "end")] [], flowTag "toAsk" "start" "ask",
        flowTag "toEnd" "ask" "end"]]]

instance (raw : XmlElement) (node : XmlElement) (key role : String) : Decidable
    (∀ id, id ∈ node.listed key ↔ ∃ flow ∈ raw.all "sequenceFlow",
      flow.attrText "id" = id ∧ flow.attrText role = node.attrText "id") :=
  decidable_of_iff ((∀ id ∈ node.listed key, ∃ flow ∈ raw.all "sequenceFlow",
      flow.attrText "id" = id ∧ flow.attrText role = node.attrText "id") ∧
    ∀ flow ∈ raw.all "sequenceFlow", flow.attrText role = node.attrText "id" →
      flow.attrText "id" ∈ node.listed key) <| by
    constructor
    · rintro ⟨hlisted, hdrawn⟩ id
      refine ⟨hlisted id, ?_⟩
      rintro ⟨flow, hflow, rfl, hrole⟩
      exact hdrawn flow hflow hrole
    · intro h
      exact ⟨fun id => (h id).1, fun flow hflow hrole => (h _).2 ⟨flow, hflow, rfl, hrole⟩⟩

instance (raw : XmlElement) : Decidable raw.Agrees := by
  unfold XmlElement.Agrees
  infer_instance

/-- Every flow of the document is listed at both ends, inside the sub-process too. -/
theorem oneFlowRelation_listedWay : ∃ (raw : XmlElement) (result : ParseResult),
    processOf listedWay = some raw ∧ parseBpmn listedWay = .ok result ∧
      result.definition.OneFlowRelation := by
  have hraw : (processOf listedWay).any (fun raw => raw.levels.all fun level => level.Agrees) =
      true := by
    decide +kernel
  have hparsed : (parseBpmn listedWay).toOption.isSome = true := by decide +kernel
  obtain ⟨result, hresult⟩ := Option.isSome_iff_exists.1 hparsed
  have hok : parseBpmn listedWay = .ok result := Except.eq_ok_of_toOption hresult
  cases hprocess : processOf listedWay with
  | none => simp [hprocess] at hraw
  | some raw =>
    rw [hprocess] at hraw
    refine ⟨raw, result, rfl, hok, (oneFlowRelation_iff hprocess hok).2 fun level hlevel => ?_⟩
    exact of_decide_eq_true (List.all_eq_true.1 hraw level hlevel)

/-- The document without the children is accepted without errors, and the definition is deployable.
Its start event lists no flow, so that a token ends there, while a flow has it as its source. -/
theorem not_oneFlowRelation_unlistedWay : ∃ result : ParseResult,
    parseBpmn unlistedWay = .ok result ∧ result.errors = [] ∧
      result.definition.isDeployable = true ∧ ¬ result.definition.OneFlowRelation := by
  have htest : (parseBpmn unlistedWay).toOption.any (fun result => result.errors = [] ∧
      result.definition.isDeployable = true ∧
      (∃ e ∈ result.definition.elements, e.id = "start" ∧ e.outgoingFlows = []) ∧
      ∃ flow ∈ result.definition.sequenceFlows, flow.sourceRef = "start") = true := by
    decide +kernel
  cases hresult : parseBpmn unlistedWay with
  | error e => simp [hresult, Except.toOption] at htest
  | ok result =>
    rw [hresult] at htest
    obtain ⟨herrors, hdeployable, ⟨e, he, hid, hlist⟩, flow, hflow, hsource⟩ :=
      of_decide_eq_true htest
    refine ⟨result, rfl, herrors, hdeployable, fun h => ?_⟩
    have hlisted : flow.id ∈ e.outgoingFlows :=
      ((h _ List.mem_cons_self e he).1 flow.id).2 ⟨flow, hflow, rfl, hsource.trans hid.symm⟩
    rw [hlist] at hlisted
    cases hlisted

end NexusWorkflow
