import NexusWorkflow.Proof.Changes

/-!
# Documents and their instances

A document agrees with its instance in every run in which the submissions of one document do not
overlap, each decision about it is written before the next one is committed, and no request dies
between the service and the update.  That only one instance runs is then due to the checks of the
routes: a submission finds the status that the last decision has left.
-/

namespace NexusWorkflow.Documents

open Machine (Outcome)
open Replica (log Follows pending Due log_concat pending_commit pending_apply)

/-! ## What is promised -/

/-- The change of the service that the request has made and not yet written to the document. -/
def Request.owes : Request → Phase → Option Change
  | .submit .., .linking (some i) | .patch .., .linking (some i) => some (.started i)
  | .complete i review decision, .finding | .complete i review decision, .syncing _ =>
    some (.decided i review decision)
  | _, _ => none

/-- The timesheet has the status that its instance determines, and no other one of its instances
runs. -/
def Timesheet.Agrees (s : Office) (timesheet : Timesheet) : Prop :=
  match timesheet.workflowInstanceId with
  | none => timesheet.status = .draft ∧ ∀ inst ∈ s.instances,
      inst.document ≠ .timesheet timesheet.id
  | some i => ∃ inst : Instance, s.instances[i]? = some inst ∧
      inst.document = .timesheet timesheet.id ∧
      inst.position.timesheetStatus = some timesheet.status ∧
      ∀ (j : Nat) (other : Instance), s.instances[j]? = some other →
        other.document = .timesheet timesheet.id →
        other.position.running = true → j = i

def ExpenseReport.Agrees (s : Office) (report : ExpenseReport) : Prop :=
  match report.workflowInstanceId with
  | none => report.status = .DRAFT ∧ ∀ inst ∈ s.instances, inst.document ≠ .expense report.id
  | some i => ∃ inst : Instance, s.instances[i]? = some inst ∧ inst.document = .expense report.id ∧
      inst.position.expenseStatus = some report.status ∧
      ∀ (j : Nat) (other : Instance), s.instances[j]? = some other →
        other.document = .expense report.id →
        other.position.running = true → j = i

structure Agree (s : System) : Prop where
  one : ∀ (i j : Nat) (inst other : Instance), s.office.instances[i]? = some inst →
    s.office.instances[j]? = some other → inst.document = other.document →
      inst.position.running = true →
      other.position.running = true → i = j
  /-- What has been written to a document is what was committed first. -/
  order : Follows s.office.committed s.office.applied
  settled : (∀ r ∈ s.requests, r.1.owes r.2 = none) →
    (∀ document, log s.office.applied document = log s.office.committed document) ∧
      (∀ timesheet ∈ s.office.timesheets.values, timesheet.Agrees s.office) ∧
      ∀ report ∈ s.office.expenses.values, report.Agrees s.office

/-! ## The schedule -/

/-- The document of the instance. -/
def Office.documentOf (s : Office) (instanceId : Nat) : Option Doc :=
  s.instances[instanceId]?.map Instance.document

/-- A submission goes on after its first query only while no other one of the document is under
way; a task is completed only while no other request has yet to write what it has committed about
the document; and between the two systems no answer is lost and no call fails. -/
def System.InTurn (s : System) (k : Nat) (outcome : Outcome) : Request → Phase → Prop
  | request, .reading => outcome = .ok → ∀ document ∈ request.submits,
      ∀ other ∈ s.requests.eraseIdx k, other.2.underway = true →
        other.1.submits ≠ some document
  | _, .starting _ => outcome ≠ .lost
  | _, .linking (some _) => outcome ≠ .failed
  | .complete instanceId _ _, .completing => outcome ≠ .lost ∧ (outcome = .ok →
      ∀ other ∈ s.requests.eraseIdx k, ∀ change ∈ other.1.owes other.2,
        s.office.documentOf change.instanceId ≠ s.office.documentOf instanceId)
  | _, .finding => outcome = .ok
  | _, .syncing _ => outcome ≠ .failed
  | _, _ => True

instance (s : System) (k : Nat) (outcome : Outcome) (request : Request) (phase : Phase) :
    Decidable (s.InTurn k outcome request phase) := by
  unfold System.InTurn
  split <;> infer_instance

def Sequential (s : System) : Happening → Prop
  | .go k outcome => ∀ r ∈ s.requests[k]?, s.InTurn k outcome r.1 r.2
  | .request _ | .manage _ | .reorder _ => True

instance decidableSequential (s : System) : (h : Happening) → Decidable (Sequential s h)
  | .go k outcome => inferInstanceAs (Decidable (∀ r ∈ s.requests[k]?, s.InTurn k outcome r.1 r.2))
  | .request _ | .manage _ | .reorder _ => isTrue trivial

variable {s s' : Office} {document : Doc}

/-! ## What a request knows -/

/-- The document of the request is there, and the instance that it has started or that it decides
is one of the document. -/
def Office.Knows (s : Office) : Request → Phase → Prop
  | _, .cancelling _ => False
  | .submit _ timesheetId, .starting _ => s.Has (.timesheet timesheetId)
  | .patch _ expenseId _ submitted, .readingManager
  | .patch _ expenseId _ submitted, .starting _ => submitted = true ∧ s.Has (.expense expenseId)
  | .submit _ timesheetId, .linking (some i) =>
    ∃ inst : Instance, s.instances[i]? = some inst ∧ inst.document = .timesheet timesheetId
  | .patch _ expenseId _ submitted, .linking (some i) => submitted = true ∧
    ∃ inst : Instance, s.instances[i]? = some inst ∧ inst.document = .expense expenseId
  | .complete instanceId _ _, .syncing document =>
    ∃ inst : Instance, s.instances[instanceId]? = some inst ∧ inst.document = document
  | _, _ => True

theorem Extends.belongs {instances instances' : List Instance} (h : Extends instances instances')
    {i : Nat} (hinst : ∃ inst : Instance, instances[i]? = some inst ∧ inst.document = document) :
    ∃ inst : Instance, instances'[i]? = some inst ∧ inst.document = document := by
  obtain ⟨inst, hi, hdocument⟩ := hinst
  obtain ⟨inst', hi', -, hsame⟩ := h i inst hi
  exact ⟨inst', hi', hsame.trans hdocument⟩

theorem Office.Knows.mono {request : Request} {phase : Phase} (h : s.Knows request phase)
    (hhas : ∀ d, s.Has d → s'.Has d) (hextends : Extends s.instances s'.instances) :
    s'.Knows request phase := by
  unfold Office.Knows at h ⊢
  split
  · exact h
  · exact hhas _ h
  · exact ⟨h.1, hhas _ h.2⟩
  · exact ⟨h.1, hhas _ h.2⟩
  · exact hextends.belongs h
  · exact ⟨h.1, hextends.belongs h.2⟩
  · exact hextends.belongs h
  · trivial

theorem knows_done (request : Request) : s.Knows request .done := by
  unfold Office.Knows
  split <;> trivial

theorem owes_done (request : Request) : request.owes .done = none := by
  cases request <;> rfl

theorem Office.Checked.knows {request : Request} {next : Phase} (h : s.Checked request next) :
    s.Knows request next := by
  unfold Office.Knows
  split
  · exact h.second
  · exact h.has _ rfl
  · exact ⟨h.told, h.has _ rfl⟩
  · exact ⟨h.told, h.has _ rfl⟩
  · exact h.second.elim
  · exact h.second.elim
  · exact h.second.elim
  · trivial

theorem owes_of_second {request : Request} {next : Phase} (h : next.second) :
    request.owes next = none := by
  unfold Request.owes
  split
  · exact h.elim
  · exact h.elim
  · exact h.elim
  · exact h.elim
  · rfl

/-- A request that owes the start of an instance submits the document of the instance. -/
theorem submits_of_owes {request : Request} {phase : Phase} {i : Nat}
    (hknows : s.Knows request phase) (howes : request.owes phase = some (.started i)) :
    ∃ inst : Instance, s.instances[i]? = some inst ∧ request.submits = some inst.document := by
  unfold Request.owes at howes
  split at howes
  · cases howes
    obtain ⟨inst, hinst, hdocument⟩ := hknows
    exact ⟨inst, hinst, by rw [hdocument]; rfl⟩
  · cases howes
    obtain ⟨rfl, inst, hinst, hdocument⟩ := hknows
    exact ⟨inst, hinst, by rw [hdocument]; rfl⟩
  · cases howes
  · cases howes
  · cases howes

theorem underway_of_owes {request : Request} {phase : Phase} {c : Change}
    (howes : request.owes phase = some c) : phase.underway = true := by
  unfold Request.owes at howes
  split at howes <;> first | rfl | cases howes

/-! ## What comes of a call -/

/-- What a call does to what is committed and written, and to what the request owes. -/
inductive Office.Moves (s s' : Office) (request : Request) (phase next : Phase) : Prop
  | stays (hcommitted : s'.committed = s.committed) (happlied : s'.applied = s.applied)
      (howes : request.owes next = request.owes phase)
  | commits (document : Doc) (c : Change)
      (hfree : pending s.committed s.applied document = [])
      (hcommitted : s'.committed = s.committed ++ [(document, c)])
      (happlied : s'.applied = s.applied)
      (howed : request.owes phase = none) (howes : request.owes next = some c)
  | applies (document : Doc) (c : Change)
      (hdue : pending s.committed s.applied document = [c])
      (hcommitted : s'.committed = s.committed)
      (happlied : s'.applied = s.applied ++ [(document, c)])
      (howed : request.owes phase = some c) (hdone : next = .done)

structure Office.Turns (s s' : Office) (request : Request) (phase next : Phase) : Prop where
  committed : Committed s'
  written : Written s'
  has : ∀ d, s.Has d → s'.Has d
  instances : Extends s.instances s'.instances
  knows : s'.Knows request next
  moves : s.Moves s' request phase next

/-- The answer is lost. -/
theorem Office.Turns.lost {request : Request} {phase next : Phase}
    (h : s.Turns s' request phase next) (howes : request.owes next = none) :
    s.Turns s' request phase .done := by
  refine ⟨h.committed, h.written, h.has, h.instances, knows_done request, ?_⟩
  cases h.moves with
  | stays hcommitted happlied hsame =>
    exact .stays hcommitted happlied ((owes_done request).trans (howes.symm.trans hsame))
  | commits document c hfree hcommitted happlied howed howes' =>
    rw [howes] at howes'
    cases howes'
  | applies document c hdue hcommitted happlied howed hdone =>
    exact .applies document c hdue hcommitted happlied howed rfl

/-- A call that commits and writes nothing. -/
theorem turns_of_same (hc : Committed s') (hw : Written s') (hhas : ∀ d, s.Has d → s'.Has d)
    (hinstances : s'.instances = s.instances) (hcommitted : s'.committed = s.committed)
    (happlied : s'.applied = s.applied) {request : Request} {phase next : Phase}
    (hnext : s'.Knows request next)
    (howes : request.owes next = request.owes phase) : s.Turns s' request phase next :=
  ⟨hc, hw, hhas, hinstances ▸ extends_refl _, hnext, .stays hcommitted happlied howes⟩

/-! ## Each call -/

theorem has_of_eq (htimesheets : s'.timesheets = s.timesheets)
    (hexpenses : s'.expenses = s.expenses) (d : Doc) (hd : s.Has d) : s'.Has d := by
  unfold Office.Has at hd ⊢
  rw [htimesheets, hexpenses]
  exact hd

theorem has_setTimesheet {timesheet : Timesheet}
    (htimesheets : s'.timesheets = s.timesheets.set timesheet)
    (hexpenses : s'.expenses = s.expenses) (d : Doc) (hd : s.Has d) : s'.Has d := by
  unfold Office.Has at hd ⊢
  rw [htimesheets, hexpenses]
  cases d with
  | timesheet id =>
    show (s.timesheets.set timesheet).get? id ≠ none
    rw [KeyedMap.get?_set]
    split_ifs
    · exact Option.some_ne_none _
    · exact hd
  | expense id => exact hd

theorem has_setExpense {report : ExpenseReport} (htimesheets : s'.timesheets = s.timesheets)
    (hexpenses : s'.expenses = s.expenses.set report) (d : Doc) (hd : s.Has d) : s'.Has d := by
  unfold Office.Has at hd ⊢
  rw [htimesheets, hexpenses]
  cases d with
  | timesheet id => exact hd
  | expense id =>
    show (s.expenses.set report).get? id ≠ none
    rw [KeyedMap.get?_set]
    split_ifs
    · exact Option.some_ne_none _
    · exact hd

/-- What the call can rely on when it is made. -/
def Office.Safe (s : Office) : Request → Phase → Prop
  | .submit _ timesheetId, .starting _ => s.Quiet (.timesheet timesheetId) ∧
    pending s.committed s.applied (.timesheet timesheetId) = []
  | .patch _ expenseId _ _, .starting _ => s.Quiet (.expense expenseId) ∧
    pending s.committed s.applied (.expense expenseId) = []
  | .submit _ timesheetId, .linking (some i) =>
    pending s.committed s.applied (.timesheet timesheetId) = [.started i]
  | .patch _ expenseId _ _, .linking (some i) =>
    pending s.committed s.applied (.expense expenseId) = [.started i] ∧
      s.Editable (.expense expenseId)
  | .complete i _ _, .completing => ∀ inst ∈ s.instances[i]?,
    pending s.committed s.applied inst.document = []
  | .complete i review decision, .finding | .complete i review decision, .syncing _ =>
    ∃ inst : Instance, s.instances[i]? = some inst ∧
      pending s.committed s.applied inst.document = [.decided i review decision]
  | _, _ => True

theorem due_of_pending {c : Change} (h : pending s.committed s.applied document = [c]) :
    Due s.committed s.applied document c := by
  unfold Due
  rw [h]
  rfl

section Calls

variable (hc : Committed s) (hw : Written s)

include hc hw

theorem turns_write (request : Request) :
    s.Turns (s.write request) request .writing .done := by
  have howes : request.owes .done = request.owes .writing := by cases request <;> rfl
  have hsame : ∀ s' : Office, s'.committed = s.committed → s'.applied = s.applied →
      s'.instances = s.instances → s'.timesheets = s.timesheets → s'.expenses = s.expenses →
      s.Turns s' request .writing .done := by
    intro s' hcommitted happlied hinstances htimesheets hexpenses
    have hhas : ∀ d, s.Has d → s'.Has d := has_of_eq htimesheets hexpenses
    exact turns_of_same (hc.frame hcommitted hinstances hhas)
      (hw.frame hcommitted happlied htimesheets hexpenses) hhas hinstances hcommitted happlied
      (knows_done request) howes
  cases request with
  | uploadReceipt employeeId expenseId receiptPath =>
    cases hget : s.expenses.get? expenseId with
    | none =>
      simp only [Office.write, hget]
      exact hsame s rfl rfl rfl rfl rfl
    | some report =>
      simp only [Office.write, hget]
      have hshows : ExpenseReport.Shows { report with receiptPath := some receiptPath }
          (log s.applied (.expense report.id)).getLast? :=
        hw.expenses report (KeyedMap.mem_of_get? hget)
      have hhas : ∀ d, s.Has d → Office.Has { s with
          expenses := s.expenses.set { report with receiptPath := some receiptPath } } d :=
        has_setExpense rfl rfl
      refine turns_of_same ?_ (hw.setReport hshows) hhas rfl rfl rfl (knows_done _) howes
      exact hc.frame rfl rfl hhas
  | updateEntry employeeId timesheetId entryId hours projectCode description =>
    cases hget : s.entries.get? entryId with
    | none =>
      simp only [Office.write, hget]
      exact hsame s rfl rfl rfl rfl rfl
    | some e =>
      simp only [Office.write, hget]
      exact hsame _ rfl rfl rfl rfl rfl
  | createEntry => exact hsame _ rfl rfl rfl rfl rfl
  | deleteEntry => exact hsame _ rfl rfl rfl rfl rfl
  | submit => exact hsame s rfl rfl rfl rfl rfl
  | patch => exact hsame s rfl rfl rfl rfl rfl
  | complete => exact hsame s rfl rfl rfl rfl rfl

theorem turns_start {request : Request} {total : ℚ} (hhas : s.Has document)
    (hquiet : s.Quiet document) (hfree : pending s.committed s.applied document = [])
    (hknows : (s.start document total).Knows request (.linking (some s.instances.length)))
    (howed : request.owes (.starting total) = none)
    (howes : request.owes (.linking (some s.instances.length)) =
      some (.started s.instances.length)) :
    s.Turns (s.start document total) request (.starting total)
      (.linking (some s.instances.length)) := by
  refine ⟨hc.start hhas hquiet total, hw.commit document _ rfl rfl rfl rfl, fun d hd => ?_,
    extends_append _ _, hknows, .commits document _ hfree rfl rfl howed howes⟩
  cases d <;> exact hd

omit hw in
/-- The change that is due is written. -/
theorem turns_apply {c : Change} (hdue : pending s.committed s.applied document = [c])
    {request : Request} {phase : Phase} (howed : request.owes phase = some c)
    (hcommitted : s'.committed = s.committed) (happlied : s'.applied = s.applied ++ [(document, c)])
    (hinstances : s'.instances = s.instances) (hhas : ∀ d, s.Has d → s'.Has d)
    (hwritten : Written s') : s.Turns s' request phase .done :=
  ⟨hc.frame hcommitted hinstances hhas, hwritten, hhas, hinstances ▸ extends_refl _,
    knows_done request, .applies document c hdue hcommitted happlied howed rfl⟩

theorem has_of_due {c : Change} (hdue : pending s.committed s.applied document = [c]) :
    s.Has document ∧
      ∃ inst : Instance, s.instances[c.instanceId]? = some inst ∧ inst.document = document := by
  refine hc.known document c ?_
  rw [hw.order.log_eq, hdue]
  exact List.mem_append_right _ List.mem_cons_self

theorem turns_linkTimesheet {employeeId : String} {timesheetId instanceId : Nat}
    (hdue : pending s.committed s.applied (.timesheet timesheetId) = [.started instanceId]) :
    s.Turns (s.linkTimesheet timesheetId instanceId) (.submit employeeId timesheetId)
      (.linking (some instanceId)) .done := by
  obtain ⟨hhas, -⟩ := has_of_due hc hw hdue
  obtain ⟨timesheet, hget⟩ := Option.ne_none_iff_exists'.1 hhas
  obtain rfl : timesheet.id = timesheetId := KeyedMap.key_of_get? hget
  simp only [Office.linkTimesheet, hget]
  have hwritten : Written { s with
      timesheets := s.timesheets.set { timesheet with
        status := .pending_manager_review, workflowInstanceId := some instanceId
        submitted := some (s.entriesOf timesheet.id) }
      applied := s.applied ++ [(.timesheet timesheet.id, .started instanceId)] } :=
    hw.applyTimesheet (due_of_pending hdue) rfl rfl
  refine turns_apply hc hdue ?_ ?_ ?_ ?_ ?_ hwritten
  · rfl
  · rfl
  · rfl
  · rfl
  · exact has_setTimesheet rfl rfl

theorem turns_patch {employeeId : String} {expenseId : Nat} {lineItems : Option (List LineItem)}
    {submitted : Bool} {instanceId : Option Nat}
    (hsafe : s.Safe (.patch employeeId expenseId lineItems submitted) (.linking instanceId)) :
    s.Turns (s.patch expenseId lineItems instanceId).1
      (.patch employeeId expenseId lineItems submitted) (.linking instanceId)
      (s.patch expenseId lineItems instanceId).2 := by
  cases instanceId with
  | none =>
    cases hget : s.expenses.get? expenseId with
    | none =>
      simp only [Office.patch, hget]
      exact turns_of_same hc hw (fun _ hd => hd) rfl rfl rfl (knows_done _) rfl
    | some found =>
      simp only [Office.patch, hget]
      have hshows : ExpenseReport.Shows
          { found with lineItems := lineItems.getD found.lineItems }
          (log s.applied (.expense found.id)).getLast? :=
        hw.expenses found (KeyedMap.mem_of_get? hget)
      have hhas : ∀ d, s.Has d → Office.Has { s with
          expenses := s.expenses.set { found with
            lineItems := lineItems.getD found.lineItems } } d := has_setExpense rfl rfl
      refine turns_of_same ?_ (hw.setReport hshows) hhas rfl rfl rfl (knows_done _) rfl
      exact hc.frame rfl rfl hhas
  | some i =>
    obtain ⟨hdue, heditable⟩ := hsafe
    obtain ⟨hhas, -⟩ := has_of_due hc hw hdue
    obtain ⟨found, hget⟩ := Option.ne_none_iff_exists'.1 hhas
    obtain rfl : found.id = expenseId := KeyedMap.key_of_get? hget
    simp only [Office.patch, hget, heditable found hget, if_true]
    have hwritten : Written { s with
        expenses := s.expenses.set { found with
          status := .SUBMITTED, workflowInstanceId := some i
          lineItems := lineItems.getD found.lineItems
          submitted := some (lineItems.getD found.lineItems, found.receiptPath) }
        applied := s.applied ++ [(.expense found.id, .started i)] } :=
      hw.applyExpense (due_of_pending hdue) rfl rfl
    refine turns_apply hc hdue ?_ ?_ ?_ ?_ ?_ hwritten
    · rfl
    · rfl
    · rfl
    · rfl
    · exact has_setExpense rfl rfl

theorem turns_complete {instanceId : Nat} {review : Review} {decision : Decision}
    (hfree : ∀ inst ∈ s.instances[instanceId]?,
      pending s.committed s.applied inst.document = []) :
    s.Turns (s.complete instanceId review decision).1 (.complete instanceId review decision)
      .completing (s.complete instanceId review decision).2 := by
  cases hinst : s.instances[instanceId]? with
  | none =>
    simp only [Office.complete, hinst]
    exact turns_of_same hc hw (fun _ hd => hd) rfl rfl rfl (knows_done _) rfl
  | some inst =>
    by_cases hposition : inst.position = .waiting review
    · simp only [Office.complete, hinst, if_pos hposition]
      exact ⟨hc.decided hinst hposition decision, hw.commit inst.document _ rfl rfl rfl rfl,
        has_of_eq rfl rfl, extends_set hinst _, trivial,
          .commits inst.document _ (hfree inst hinst) rfl rfl rfl rfl⟩
    · simp only [Office.complete, hinst, if_neg hposition]
      exact turns_of_same hc hw (fun _ hd => hd) rfl rfl rfl (knows_done _) rfl

/-- The document that is found is that of the instance. -/
theorem find_eq {instanceId : Nat} {inst : Instance} (hinst : s.instances[instanceId]? = some inst)
    {c : Change} (hlast : (log s.applied inst.document).getLast? = some c)
    (hid : c.instanceId = instanceId) :
    s.find instanceId = .syncing inst.document := by
  have hcommitted : ∀ d x, x ∈ log s.applied d → x ∈ log s.committed d :=
      fun d x hx => (hw.order d).subset hx
  obtain ⟨hhas, -⟩ := hc.known _ c (hcommitted _ c (List.mem_of_getLast? hlast))
  -- whatever is linked to the instance is its document
  have hdocument : ∀ d x, (log s.applied d).getLast?.map Change.instanceId = some instanceId →
      x = d →
      inst.document = x := by
    intro d x hd hx
    obtain ⟨c', hc', hid'⟩ := Option.map_eq_some_iff.1 hd
    obtain ⟨-, inst', hinst', hdocument⟩ :=
      hc.known d c' (hcommitted d c' (List.mem_of_getLast? hc'))
    rw [hid', hinst] at hinst'
    cases hinst'
    exact hdocument.trans hx.symm
  unfold Office.find
  simp only [hinst]
  cases hd : inst.document with
  | timesheet id =>
    rw [hd] at hlast hhas
    obtain ⟨timesheet, hget⟩ := Option.ne_none_iff_exists'.1 hhas
    have hmem := KeyedMap.mem_of_get? hget
    obtain rfl : timesheet.id = id := KeyedMap.key_of_get? hget
    have hlink : timesheet.workflowInstanceId = some instanceId := by
      rw [(hw.timesheets timesheet hmem).2, hlast, Option.map_some, hid]
    dsimp only
    cases hfind : s.timesheets.values.find? (·.workflowInstanceId = some instanceId) with
    | none =>
      have hnone := List.find?_eq_none.1 hfind timesheet hmem
      simp [hlink] at hnone
    | some found =>
      have hfound : found.workflowInstanceId = some instanceId :=
          by simpa using List.find?_some hfind
      rw [(hw.timesheets found (List.mem_of_find?_eq_some hfind)).2] at hfound
      exact congrArg Phase.syncing ((hdocument _ _ hfound rfl).symm.trans hd)
  | expense id =>
    rw [hd] at hlast hhas
    obtain ⟨report, hget⟩ := Option.ne_none_iff_exists'.1 hhas
    have hmem := KeyedMap.mem_of_get? hget
    obtain rfl : report.id = id := KeyedMap.key_of_get? hget
    have hlink : report.workflowInstanceId = some instanceId := by
      rw [(hw.expenses report hmem).2, hlast, Option.map_some, hid]
    dsimp only
    cases hfind : s.expenses.values.find? (·.workflowInstanceId = some instanceId) with
    | none =>
      have hnone := List.find?_eq_none.1 hfind report hmem
      simp [hlink] at hnone
    | some found =>
      have hfound : found.workflowInstanceId = some instanceId :=
          by simpa using List.find?_some hfind
      rw [(hw.expenses found (List.mem_of_find?_eq_some hfind)).2] at hfound
      exact congrArg Phase.syncing ((hdocument _ _ hfound rfl).symm.trans hd)

theorem turns_find {instanceId : Nat} {review : Review} {decision : Decision}
    (hsafe : s.Safe (.complete instanceId review decision) .finding) :
    s.Turns s (.complete instanceId review decision) .finding (s.find instanceId) := by
  obtain ⟨inst, hinst, hdue⟩ := hsafe
  obtain ⟨last, hlast, hawaits⟩ := last_of_due hc hw (due_of_pending hdue)
  rw [find_eq hc hw hinst hlast (Change.awaits_eq_some hawaits).1]
  exact turns_of_same hc hw (fun _ hd => hd) rfl rfl rfl ⟨inst, hinst, rfl⟩ rfl

theorem turns_sync {instanceId : Nat} {review : Review} {decision : Decision} {inst : Instance}
    (hdue : pending s.committed s.applied inst.document =
      [.decided instanceId review decision]) :
    s.Turns (s.sync instanceId review decision inst.document)
      (.complete instanceId review decision) (.syncing inst.document) .done := by
  obtain ⟨hhas, -⟩ := has_of_due hc hw hdue
  obtain ⟨last, hlast, hawaits⟩ := last_of_due hc hw (due_of_pending hdue)
  obtain ⟨hid, -, hprevious⟩ := Change.awaits_eq_some hawaits
  cases hd : inst.document with
  | timesheet id =>
    rw [hd] at hhas hlast hdue
    obtain ⟨timesheet, hget⟩ := Option.ne_none_iff_exists'.1 hhas
    have hmem := KeyedMap.mem_of_get? hget
    obtain rfl : timesheet.id = id := KeyedMap.key_of_get? hget
    have hlink : timesheet.workflowInstanceId = some instanceId := by
      rw [(hw.timesheets timesheet hmem).2, hlast, Option.map_some, hid]
    simp only [Office.sync, hget]
    have hwritten : Written { s with
        timesheets := s.timesheets.set { timesheet with
          status := review.timesheetStatus decision
          submitted := if review.timesheetStatus decision = .revision_requested then none
            else timesheet.submitted }
        applied := s.applied ++ [(.timesheet timesheet.id,
          .decided instanceId review decision)] } :=
      hw.applyTimesheet (due_of_pending hdue) rfl hlink
    refine turns_apply hc hdue ?_ ?_ ?_ ?_ ?_ hwritten
    · rfl
    · rfl
    · rfl
    · rfl
    · exact has_setTimesheet rfl rfl
  | expense id =>
    rw [hd] at hhas hlast hdue
    obtain ⟨report, hget⟩ := Option.ne_none_iff_exists'.1 hhas
    have hmem := KeyedMap.mem_of_get? hget
    obtain rfl : report.id = id := KeyedMap.key_of_get? hget
    have hshows := hw.expenses report hmem
    rw [hlast] at hshows
    have hstatus : report.status = review.expectedPreviousStatus := hshows.1.trans hprevious
    have hlink : report.workflowInstanceId = some instanceId :=
      hshows.2.trans (congrArg some hid)
    simp only [Office.sync, hget, if_pos hstatus]
    have hwritten : Written { s with
        expenses := s.expenses.set { report with
          status := review.expenseStatus decision
          submitted := if review.expenseStatus decision = .REJECTED then none
            else report.submitted }
        applied := s.applied ++ [(.expense report.id,
          .decided instanceId review decision)] } :=
      hw.applyExpense (due_of_pending hdue) rfl hlink
    refine turns_apply hc hdue ?_ ?_ ?_ ?_ ?_ hwritten
    · rfl
    · rfl
    · rfl
    · rfl
    · exact has_setExpense rfl rfl

theorem turns_perform {request : Request} {phase : Phase} (hknows : s.Knows request phase)
    (hsafe : s.Safe request phase) :
    s.Turns (s.perform request phase).1 request phase (s.perform request phase).2 := by
  have hstay : ∀ next, s.Knows request next → request.owes next = request.owes phase →
      s.Turns s request phase next := fun next hnext howes =>
    turns_of_same hc hw (fun _ hd => hd) rfl rfl rfl hnext howes
  unfold Office.perform
  split
  · have howed : ∀ request : Request, request.owes .reading = none := by
      intro request
      cases request <;> rfl
    rcases read_spec _ with hdone | hchecked
    · rw [hdone]
      exact hstay _ (knows_done _) ((owes_done _).trans (howed _).symm)
    · exact hstay _ hchecked.knows ((owes_of_second hchecked.second).trans (howed _).symm)
  · split
    · exact hstay _ trivial rfl
    · dsimp only
      split_ifs
      · exact hstay _ trivial rfl
      · exact hstay _ trivial rfl
  · split
    · exact hstay _ trivial rfl
    · dsimp only
      split_ifs
      · exact hstay _ trivial rfl
      · exact hstay _ trivial rfl
  · dsimp only
    split_ifs
    · exact hstay _ hknows rfl
    · exact hstay _ trivial rfl
  · exact turns_write hc hw _
  · exact turns_start hc hw hknows hsafe.1 hsafe.2
      ⟨_, List.getElem?_concat_length, rfl⟩ rfl rfl
  · obtain ⟨rfl, hhas⟩ := hknows
    exact turns_start hc hw hhas hsafe.1 hsafe.2
      ⟨rfl, _, List.getElem?_concat_length, rfl⟩ rfl rfl
  · exact turns_linkTimesheet hc hw hsafe
  · exact turns_patch hc hw hsafe
  · exact hknows.elim
  · exact turns_complete hc hw hsafe
  · exact turns_find hc hw hsafe
  · obtain ⟨inst, hinst, rfl⟩ := hknows
    obtain ⟨inst', hinst', hdue⟩ := hsafe
    obtain rfl := Option.some.inj (hinst.symm.trans hinst')
    exact turns_sync hc hw hdue
  · rename_i hsubmit hpatch _ _ hfinding hsyncing
    refine hstay _ (knows_done _) ((owes_done _).trans (Eq.symm ?_))
    unfold Request.owes
    split
    · exact (hsubmit _ _ _ rfl rfl).elim
    · exact (hpatch _ _ _ _ _ rfl rfl).elim
    · exact (hfinding _ _ _ rfl rfl).elim
    · exact (hsyncing _ _ _ _ rfl rfl).elim
    · rfl

end Calls

/-- A request whose answer is lost owes nothing then. -/
theorem owes_of_lost {s : System} {k : Nat} {request : Request} {phase : Phase}
    (hturn : s.InTurn k .lost request phase) :
    request.owes (s.office.perform request phase).2 = none := by
  unfold Office.perform
  split
  · rcases read_spec _ with hdone | hchecked
    · rw [hdone]
      exact owes_done _
    · exact owes_of_second hchecked.second
  · split
    · rfl
    · dsimp only
      split_ifs <;> rfl
  · split
    · rfl
    · dsimp only
      split_ifs <;> rfl
  · dsimp only
    split_ifs <;> rfl
  · exact owes_done _
  · exact absurd rfl hturn
  · exact absurd rfl hturn
  · rfl
  · unfold Office.patch
    split
    · rfl
    · dsimp only
      split
      · rfl
      · split_ifs <;> rfl
  · rfl
  · exact absurd rfl hturn.1
  · cases hturn
  · rfl
  · exact owes_done _

/-- A call whose failure would lose a change does not fail. -/
theorem owes_of_failed {s : System} {k : Nat} {request : Request} {phase : Phase}
    (hturn : s.InTurn k .failed request phase) : request.owes phase = none := by
  unfold Request.owes
  split
  · exact absurd rfl hturn
  · exact absurd rfl hturn
  · cases hturn
  · exact absurd rfl hturn
  · rfl

/-! ## Runs -/

/-- Both requests have yet to write this change. -/
def SameDebt (r other : Request × Phase) : Prop :=
  ∃ c, r.1.owes r.2 = some c ∧ other.1.owes other.2 = some c

/-- Both requests submit this document. -/
def Rivals (r other : Request × Phase) : Prop :=
  r.2.underway = true ∧ other.2.underway = true ∧
    ∃ d, r.1.submits = some d ∧ other.1.submits = some d

theorem SameDebt.symm (r other : Request × Phase) (h : SameDebt r other) : SameDebt other r := by
  obtain ⟨c, hr, hother⟩ := h
  exact ⟨c, hother, hr⟩

theorem Rivals.symm (r other : Request × Phase) (h : Rivals r other) : Rivals other r := by
  obtain ⟨hr, hother, d, hd, hd'⟩ := h
  exact ⟨hother, hr, d, hd', hd⟩

/-- The last change that has been written to the document lets it be submitted again, and a
request that has yet to start its instance finds all changes written. -/
structure Office.Ready (s : Office) (d : Doc) (debt : Option Change) : Prop where
  reopened : ∀ c, (log s.applied d).getLast? = some c → c.reopens d = true
  written : debt = none → pending s.committed s.applied d = []

structure System.Ordered (s : System) : Prop where
  committed : Committed s.office
  written : Written s.office
  knows : ∀ r ∈ s.requests, s.office.Knows r.1 r.2
  /-- What is to be written is still owed by a request … -/
  owed : ∀ d, ∀ c ∈ pending s.office.committed s.office.applied d,
    ∃ r ∈ s.requests, r.1.owes r.2 = some c
  /-- … and nothing else is to be written to the document that a request has to update. -/
  due : ∀ r ∈ s.requests, ∀ c, r.1.owes r.2 = some c → ∃ inst : Instance,
    s.office.instances[c.instanceId]? = some inst ∧
      pending s.office.committed s.office.applied inst.document = [c]
  distinct : Sections.Apart SameDebt s.requests
  apart : Sections.Apart Rivals s.requests
  ready : ∀ r ∈ s.requests, r.2.underway = true → ∀ d, r.1.submits = some d →
    s.office.Ready d (r.1.owes r.2)

/-- What has been committed and not been written belongs to the document. -/
theorem Committed.belongs (hc : Committed s) (hw : Written s) {c : Change}
    (hmem : c ∈ pending s.committed s.applied document) :
    ∃ inst : Instance, s.instances[c.instanceId]? = some inst ∧ inst.document = document := by
  refine (hc.known document c ?_).2
  rw [hw.order.log_eq]
  exact List.mem_append_right _ hmem

namespace System.Ordered

variable {s : System} {k : Nat} {request : Request} {phase next : Phase}

/-- What an underway submission of the document owes, if anything, is the start of an instance of
the document. -/
theorem due_of_submits (h : s.Ordered) {r : Request × Phase} (hr : r ∈ s.requests) {d : Doc}
    (hd : r.1.submits = some d) {c : Change} (howes : r.1.owes r.2 = some c) :
    pending s.office.committed s.office.applied d = [c] := by
  obtain ⟨inst, hinst, hdue⟩ := h.due r hr c howes
  have hknows := h.knows r hr
  obtain ⟨request, phase⟩ := r
  cases c with
  | started i =>
    obtain ⟨inst', hinst', hsubmits⟩ := submits_of_owes hknows howes
    obtain rfl := Option.some.inj (hinst.symm.trans hinst')
    obtain rfl := Option.some.inj (hsubmits.symm.trans hd)
    exact hdue
  | decided i review decision =>
    dsimp only at howes hd
    unfold Request.owes at howes
    split at howes
    · cases howes
    · cases howes
    · cases hd
    · cases hd
    · cases howes

/-- What is pending is owed by one request only. -/
theorem pending_eq (h : s.Ordered) {d : Doc} {c : Change}
    (hmem : c ∈ pending s.office.committed s.office.applied d) :
    pending s.office.committed s.office.applied d = [c] := by
  obtain ⟨r, hr, howes⟩ := h.owed d c hmem
  obtain ⟨inst, hinst, hdue⟩ := h.due r hr c howes
  obtain ⟨inst', hinst', rfl⟩ := h.committed.belongs h.written hmem
  obtain rfl := Option.some.inj (hinst.symm.trans hinst')
  exact hdue

/-- The call is safe when it is made in its turn. -/
theorem safe (h : s.Ordered) (hk : s.requests[k]? = some (request, phase)) {outcome : Outcome}
    (hturn : s.InTurn k outcome request phase) (hok : outcome ≠ .failed) :
    s.office.Safe request phase := by
  have hmem : (request, phase) ∈ s.requests := List.mem_of_getElem? hk
  have hknows : s.office.Knows request phase := h.knows _ hmem
  unfold Office.Safe
  split
  · have hready := h.ready _ hmem rfl _ rfl
    exact ⟨quiet_of_reopened h.committed h.written hready.reopened (hready.written rfl),
      hready.written rfl⟩
  · obtain ⟨rfl, -⟩ := hknows
    have hready := h.ready _ hmem rfl _ rfl
    exact ⟨quiet_of_reopened h.committed h.written hready.reopened (hready.written rfl),
      hready.written rfl⟩
  · exact h.due_of_submits hmem rfl rfl
  · obtain ⟨rfl, -⟩ := hknows
    have hdue := h.due_of_submits hmem rfl rfl
    obtain ⟨hhas, -⟩ := has_of_due h.committed h.written hdue
    exact ⟨hdue, (h.written.editable_iff hhas).2 (h.ready _ hmem rfl _ rfl).reopened⟩
  · intro inst hinst
    refine List.eq_nil_iff_forall_not_mem.2 fun c hc => ?_
    obtain ⟨hlost, halone⟩ := hturn
    have hanswered : outcome = .ok := by
      cases outcome with
      | ok => rfl
      | failed => exact absurd rfl hok
      | lost => exact absurd rfl hlost
    -- another request has committed it and not written it yet
    obtain ⟨r, hr, howes⟩ := h.owed _ c hc
    obtain ⟨j, hj⟩ := List.mem_iff_getElem?.1 hr
    have hjk : j ≠ k := by
      rintro rfl
      obtain rfl := Option.some.inj (hk.symm.trans hj)
      cases howes
    obtain ⟨inst', hinst', hdocument⟩ := h.committed.belongs h.written hc
    refine halone hanswered r (List.mem_eraseIdx_iff_getElem?.2 ⟨j, hjk, hj⟩) c howes ?_
    simp only [Office.documentOf, hinst', Option.mem_def.1 hinst, Option.map_some, hdocument]
  · exact h.due _ hmem _ rfl
  · exact h.due _ hmem _ rfl
  · trivial

/-- Only where the request is changes, and it owes nothing. -/
theorem setPhase (h : s.Ordered) (hk : s.requests[k]? = some (request, phase))
    (howed : request.owes phase = none) (howes : request.owes next = none)
    (hknows : s.office.Knows request next)
    (hfree : Sections.Free Rivals s.requests k (request, next))
    (hready : next.underway = true → ∀ d, request.submits = some d → s.office.Ready d none) :
    Ordered { s with requests := s.requests.set k (request, next) } := by
  refine ⟨h.committed, h.written, fun r hr => ?_, fun d c hc => ?_, fun r hr c hc => ?_, ?_,
    h.apart.set Rivals.symm hfree, fun r hr hunderway d hd => ?_⟩
  · rcases List.mem_or_eq_of_mem_set hr with hr | rfl
    · exact h.knows r hr
    · exact hknows
  · obtain ⟨r, hr, hr'⟩ := h.owed d c hc
    refine ⟨r, Indexed.mem_set_of_ne hk hr ?_, hr'⟩
    rintro rfl
    rw [howed] at hr'
    cases hr'
  · rcases List.mem_or_eq_of_mem_set hr with hr | rfl
    · exact h.due r hr c hc
    · dsimp only at hc
      rw [howes] at hc
      cases hc
  · refine h.distinct.set SameDebt.symm (Sections.free_of_not ?_)
    rintro other ⟨c, hc, -⟩
    dsimp only at hc
    rw [howes] at hc
    cases hc
  · rcases List.mem_or_eq_of_mem_set hr with hr | rfl
    · exact h.ready r hr hunderway d hd
    · dsimp only
      rw [howes]
      exact hready hunderway d hd

/-- A request ends that owes nothing. -/
theorem finish (h : s.Ordered) (hk : s.requests[k]? = some (request, phase))
    (howed : request.owes phase = none) :
    Ordered { s with requests := s.requests.set k (request, .done) } :=
  h.setPhase hk howed (owes_done request) (knows_done request) (Sections.free_of_not nofun) nofun

/-- Nothing changes of what the documents and the instances say. -/
theorem frame (h : s.Ordered) {office : Office} (hcommitted : office.committed = s.office.committed)
    (happlied : office.applied = s.office.applied)
    (hinstances : office.instances = s.office.instances)
    (htimesheets : office.timesheets = s.office.timesheets)
    (hexpenses : office.expenses = s.office.expenses) : Ordered { s with office } := by
  have hhas : ∀ d, s.office.Has d → office.Has d := has_of_eq htimesheets hexpenses
  refine ⟨h.committed.frame hcommitted hinstances hhas,
    h.written.frame hcommitted happlied htimesheets hexpenses, fun r hr => ?_, ?_, ?_,
    h.distinct, h.apart, fun r hr hunderway d hd => ?_⟩
  · exact (h.knows r hr).mono hhas (hinstances ▸ extends_refl _)
  · rw [hcommitted, happlied]
    exact h.owed
  · rw [hcommitted, happlied, hinstances]
    exact h.due
  · obtain ⟨hreopened, hwritten⟩ := h.ready r hr hunderway d hd
    exact ⟨by rw [happlied]; exact hreopened, by rw [hcommitted, happlied]; exact hwritten⟩

/-- The first query finds the document as the last change of it has left it, and none to come. -/
theorem ready_of_checked (h : s.Ordered) (hk : s.requests[k]? = some (request, .reading))
    (halone : ∀ document ∈ request.submits, ∀ other ∈ s.requests.eraseIdx k,
      other.2.underway = true → other.1.submits ≠ some document)
    (hchecked : s.office.Checked request next) {d : Doc} (hd : request.submits = some d) :
    s.office.Ready d none := by
  have hdocument := Request.document_of_submits hd
  have hreopened := (h.written.editable_iff (hchecked.has d hdocument)).1
    (hchecked.editable d hdocument)
  refine ⟨hreopened, fun _ => List.eq_nil_iff_forall_not_mem.2 fun c hc => ?_⟩
  -- who owes it would be a submission, or decide an instance that the document has left
  obtain ⟨r, hr, howes⟩ := h.owed d c hc
  obtain ⟨i, hi⟩ := List.mem_iff_getElem?.1 hr
  cases c with
  | started instanceId =>
    obtain ⟨inst, hinst, hsubmits⟩ := submits_of_owes (h.knows r hr) howes
    obtain ⟨inst', hinst', rfl⟩ := h.committed.belongs h.written hc
    obtain rfl := Option.some.inj (hinst.symm.trans hinst')
    have hik : i ≠ k := by
      rintro rfl
      obtain rfl := Option.some.inj (hk.symm.trans hi)
      cases request <;> cases howes
    exact halone _ hd r (List.mem_eraseIdx_iff_getElem?.2 ⟨i, hik, hi⟩)
      (underway_of_owes howes) hsubmits
  | decided instanceId review decision =>
    obtain ⟨last, hlast, hawaits⟩ := last_of_due h.committed h.written
      (due_of_pending (h.pending_eq hc))
    rw [Change.awaits_of_reopens (hreopened last hlast)] at hawaits
    cases hawaits

/-- The first query. -/
theorem read (h : s.Ordered) (hk : s.requests[k]? = some (request, .reading))
    (halone : ∀ document ∈ request.submits, ∀ other ∈ s.requests.eraseIdx k,
      other.2.underway = true → other.1.submits ≠ some document) :
    Ordered { s with requests := s.requests.set k (request, s.office.read request) } := by
  have howed : request.owes .reading = none := by cases request <;> rfl
  rcases read_spec (s := s.office) request with hdone | hchecked
  · rw [hdone]
    exact h.finish hk howed
  · refine h.setPhase hk howed (owes_of_second hchecked.second) hchecked.knows
      (fun other hother hrivals => ?_) fun _ d hd => h.ready_of_checked hk halone hchecked hd
    obtain ⟨-, hunderway, d, hd, hd'⟩ := hrivals
    exact halone d hd other hother hunderway hd'

/-- Nobody else has to write what the request has to write. -/
theorem not_owes (h : s.Ordered) (hk : s.requests[k]? = some (request, phase)) {c : Change}
    (howed : request.owes phase = some c) {j : Nat} {r : Request × Phase} (hjk : j ≠ k)
    (hj : s.requests[j]? = some r) : r.1.owes r.2 ≠ some c :=
  fun howes => (h.distinct.free hk).not_clash hj hjk ⟨c, howed, howes⟩

/-- A later call that commits nothing and writes nothing. -/
theorem stays (h : s.Ordered) (hk : s.requests[k]? = some (request, phase))
    (hunderway : phase.underway = true) {office : Office}
    (hturns : s.office.Turns office request phase next)
    (hcommitted : office.committed = s.office.committed)
    (happlied : office.applied = s.office.applied)
    (howes : request.owes next = request.owes phase) :
    Ordered ⟨office, s.requests.set k (request, next)⟩ := by
  have hmem : (request, phase) ∈ s.requests := List.mem_of_getElem? hk
  have hpending : pending office.committed office.applied =
      pending s.office.committed s.office.applied := by rw [hcommitted, happlied]
  have hready : ∀ {d : Doc} {debt : Option Change}, s.office.Ready d debt →
      office.Ready d debt := by
    intro d debt hd
    exact ⟨by rw [happlied]; exact hd.reopened, by rw [hpending]; exact hd.written⟩
  refine ⟨hturns.committed, hturns.written, fun r hr => ?_, fun d c hc => ?_,
    fun r hr c hc => ?_, ?_, ?_, fun r hr hr' d hd => ?_⟩
  · rcases List.mem_or_eq_of_mem_set hr with hr | rfl
    · exact (h.knows r hr).mono hturns.has hturns.instances
    · exact hturns.knows
  · rw [hpending] at hc
    obtain ⟨r, hr, hr'⟩ := h.owed d c hc
    by_cases hown : r = (request, phase)
    · subst hown
      exact ⟨_, Indexed.mem_set_self hk, howes.trans hr'⟩
    · exact ⟨r, Indexed.mem_set_of_ne hk hr hown, hr'⟩
  · rw [hpending]
    have hold : ∃ r ∈ s.requests, r.1.owes r.2 = some c := by
      rcases List.mem_or_eq_of_mem_set hr with hr | rfl
      · exact ⟨r, hr, hc⟩
      · exact ⟨_, hmem, howes.symm.trans hc⟩
    obtain ⟨r, hr, hc⟩ := hold
    obtain ⟨inst, hinst, hdue⟩ := h.due r hr c hc
    obtain ⟨inst', hinst', -, hsame⟩ := hturns.instances _ inst hinst
    exact ⟨inst', hinst', hsame ▸ hdue⟩
  · refine h.distinct.set SameDebt.symm ((h.distinct.free hk).mono ?_)
    rintro other ⟨c, hc, hother⟩
    exact ⟨c, howes.symm.trans hc, hother⟩
  · refine h.apart.set Rivals.symm ((h.apart.free hk).mono ?_)
    rintro other ⟨-, hrivals⟩
    exact ⟨hunderway, hrivals⟩
  · rcases List.mem_or_eq_of_mem_set hr with hr | rfl
    · exact hready (h.ready r hr hr' d hd)
    · dsimp only
      rw [howes]
      exact hready (h.ready _ hmem hunderway d hd)

/-- A later call that commits a change: the instance is started, or its task completed. -/
theorem commits (h : s.Ordered) (hk : s.requests[k]? = some (request, phase))
    (hunderway : phase.underway = true) {office : Office}
    (hturns : s.office.Turns office request phase next) {document : Doc} {change : Change}
    (hfree : pending s.office.committed s.office.applied document = [])
    (hcommitted : office.committed = s.office.committed ++ [(document, change)])
    (happlied : office.applied = s.office.applied)
    (howed : request.owes phase = none) (howes : request.owes next = some change) :
    Ordered ⟨office, s.requests.set k (request, next)⟩ := by
  have hmem : (request, phase) ∈ s.requests := List.mem_of_getElem? hk
  have hpending : ∀ d, pending office.committed office.applied d =
      if document = d then pending s.office.committed s.office.applied d ++ [change]
        else pending s.office.committed s.office.applied d := by
    intro d
    rw [hcommitted, happlied]
    exact pending_commit h.written.order document change d
  have hlog : log office.committed document = log s.office.committed document ++ [change] := by
    rw [hcommitted, log_concat, if_pos rfl]
  obtain ⟨inst₀, hinst₀, hdocument₀⟩ := (hturns.committed.known document change (by simp [hlog])).2
  -- no other request has to write to the document
  have hother : ∀ r ∈ s.requests, ∀ c, r.1.owes r.2 = some c → ∃ inst : Instance,
      office.instances[c.instanceId]? = some inst ∧ document ≠ inst.document ∧
        pending s.office.committed s.office.applied inst.document = [c] := by
    intro r hr c hc
    obtain ⟨inst, hinst, hdue⟩ := h.due r hr c hc
    obtain ⟨inst', hinst', -, hsame⟩ := hturns.instances _ inst hinst
    refine ⟨inst', hinst', fun heq => ?_, hsame ▸ hdue⟩
    rw [← hsame, ← heq, hfree] at hdue
    cases hdue
  refine ⟨hturns.committed, hturns.written, fun r hr => ?_, fun d c hc => ?_,
    fun r hr c hc => ?_, ?_, ?_, fun r hr hr' d hd => ?_⟩
  · rcases List.mem_or_eq_of_mem_set hr with hr | rfl
    · exact (h.knows r hr).mono hturns.has hturns.instances
    · exact hturns.knows
  · have hcases : c ∈ pending s.office.committed s.office.applied d ∨ c = change := by
      dsimp only at hc
      rw [hpending] at hc
      split_ifs at hc
      · rcases List.mem_append.1 hc with hc | hc
        · exact .inl hc
        · exact .inr (List.mem_singleton.1 hc)
      · exact .inl hc
    rcases hcases with hc | rfl
    · obtain ⟨r, hr, hr'⟩ := h.owed d c hc
      refine ⟨r, Indexed.mem_set_of_ne hk hr ?_, hr'⟩
      rintro rfl
      rw [howed] at hr'
      cases hr'
    · exact ⟨_, Indexed.mem_set_self hk, howes⟩
  · rcases List.mem_or_eq_of_mem_set hr with hr | rfl
    · obtain ⟨inst, hinst, hne, hdue⟩ := hother r hr c hc
      refine ⟨inst, hinst, ?_⟩
      dsimp only
      rw [hpending, if_neg hne]
      exact hdue
    · obtain rfl := Option.some.inj (howes.symm.trans hc)
      refine ⟨inst₀, hinst₀, ?_⟩
      dsimp only
      rw [hdocument₀, hpending, if_pos rfl, hfree, List.nil_append]
  · refine h.distinct.set SameDebt.symm fun r hr => ?_
    rintro ⟨c, hc, hc'⟩
    obtain rfl := Option.some.inj (howes.symm.trans hc)
    obtain ⟨inst, hinst, hne, -⟩ := hother r (List.mem_of_mem_eraseIdx hr) _ hc'
    obtain rfl := Option.some.inj (hinst₀.symm.trans hinst)
    exact hne hdocument₀.symm
  · refine h.apart.set Rivals.symm ((h.apart.free hk).mono ?_)
    rintro other ⟨-, hrivals⟩
    exact ⟨hunderway, hrivals⟩
  · obtain ⟨j, hj⟩ := List.mem_iff_getElem?.1 hr
    rcases Indexed.getElem?_set hj with ⟨-, rfl⟩ | ⟨hjk, hj⟩
    · refine ⟨?_, fun hnone => ?_⟩
      · dsimp only
        rw [happlied]
        exact (h.ready _ hmem hunderway d hd).reopened
      · rw [howes] at hnone
        cases hnone
    · have hready := h.ready r (List.mem_of_getElem? hj) hr' d hd
      refine ⟨?_, fun hnone => ?_⟩
      · dsimp only
        rw [happlied]
        exact hready.reopened
      · dsimp only
        rw [hpending, if_neg, hready.written hnone]
        rintro rfl
        -- what is committed about an open document is the start of another submission
        have hfits := hturns.committed.fits _ (log s.office.committed document) change [] hlog
        rw [h.written.order.log_eq, hready.written hnone, List.append_nil] at hfits
        cases change with
        | decided i review decision =>
          obtain ⟨last, hlast, hawaits⟩ := Option.bind_eq_some_iff.1 hfits
          rw [Change.awaits_of_reopens (hready.reopened last hlast)] at hawaits
          cases hawaits
        | started i =>
          obtain ⟨inst, hinst, hsubmits⟩ := submits_of_owes hturns.knows howes
          obtain rfl := Option.some.inj (hinst₀.symm.trans hinst)
          rw [hdocument₀] at hsubmits
          exact (h.apart.free hk).not_clash hj hjk ⟨hunderway, hr', document, hsubmits, hd⟩

/-- A later call that writes the change that the request owes. -/
theorem applies (h : s.Ordered) (hk : s.requests[k]? = some (request, phase)) {office : Office}
    (hturns : s.office.Turns office request phase .done) {document : Doc} {change : Change}
    (hdue : pending s.office.committed s.office.applied document = [change])
    (hcommitted : office.committed = s.office.committed)
    (happlied : office.applied = s.office.applied ++ [(document, change)])
    (howed : request.owes phase = some change) :
    Ordered ⟨office, s.requests.set k (request, .done)⟩ := by
  have hpending : ∀ d, document ≠ d → pending office.committed office.applied d =
      pending s.office.committed s.office.applied d := by
    intro d hne
    rw [hcommitted, happlied, pending_apply, if_neg hne]
  have hwritten : pending office.committed office.applied document = [] := by
    rw [hcommitted, happlied, pending_apply, if_pos rfl, hdue, List.tail_cons]
  refine ⟨hturns.committed, hturns.written, fun r hr => ?_, fun d c hc => ?_,
    fun r hr c hc => ?_, ?_, ?_, fun r hr hr' d hd => ?_⟩
  · rcases List.mem_or_eq_of_mem_set hr with hr | rfl
    · exact (h.knows r hr).mono hturns.has hturns.instances
    · exact hturns.knows
  · have hne : document ≠ d := by
      rintro rfl
      dsimp only at hc
      rw [hwritten] at hc
      cases hc
    dsimp only at hc
    rw [hpending d hne] at hc
    obtain ⟨r, hr, hr'⟩ := h.owed d c hc
    refine ⟨r, Indexed.mem_set_of_ne hk hr ?_, hr'⟩
    rintro rfl
    -- the change belongs to one document only
    obtain rfl := Option.some.inj (howed.symm.trans hr')
    obtain ⟨inst, hinst, hdocument⟩ := h.committed.belongs h.written hc
    have hown : change ∈ pending s.office.committed s.office.applied document := by
      rw [hdue]
      exact List.mem_singleton_self change
    obtain ⟨inst', hinst', hdocument'⟩ := h.committed.belongs h.written hown
    obtain rfl := Option.some.inj (hinst.symm.trans hinst')
    exact hne (hdocument'.symm.trans hdocument)
  · obtain ⟨j, hj⟩ := List.mem_iff_getElem?.1 hr
    rcases Indexed.getElem?_set hj with ⟨-, rfl⟩ | ⟨hjk, hj⟩
    · dsimp only at hc
      rw [owes_done] at hc
      cases hc
    · obtain ⟨inst, hinst, hdue'⟩ := h.due r (List.mem_of_getElem? hj) c hc
      obtain ⟨inst', hinst', -, hsame⟩ := hturns.instances _ inst hinst
      have hne : document ≠ inst.document := by
        rintro rfl
        rw [hdue] at hdue'
        cases hdue'
        exact h.not_owes hk howed hjk hj hc
      refine ⟨inst', hinst', ?_⟩
      dsimp only
      rw [hsame, hpending _ hne]
      exact hdue'
  · refine h.distinct.set SameDebt.symm (Sections.free_of_not ?_)
    rintro other ⟨c, hc, -⟩
    dsimp only at hc
    rw [owes_done] at hc
    cases hc
  · exact h.apart.set Rivals.symm (Sections.free_of_not nofun)
  · obtain ⟨j, hj⟩ := List.mem_iff_getElem?.1 hr
    rcases Indexed.getElem?_set hj with ⟨-, rfl⟩ | ⟨hjk, hj⟩
    · cases hr'
    · have hmem := List.mem_of_getElem? hj
      have hready := h.ready r hmem hr' d hd
      have hne : document ≠ d := by
        rintro rfl
        cases howes : r.1.owes r.2 with
        | none =>
          rw [hready.written howes] at hdue
          cases hdue
        | some c =>
          rw [h.due_of_submits hmem hd howes] at hdue
          cases hdue
          exact h.not_owes hk howed hjk hj howes
      refine ⟨?_, fun hnone => ?_⟩
      · dsimp only
        rw [happlied, log_concat, if_neg hne]
        exact hready.reopened
      · dsimp only
        rw [hpending d hne]
        exact hready.written hnone

/-- A later call. -/
theorem turn (h : s.Ordered) (hk : s.requests[k]? = some (request, phase))
    (hunderway : phase.underway = true) {office : Office}
    (hturns : s.office.Turns office request phase next) :
    Ordered ⟨office, s.requests.set k (request, next)⟩ := by
  cases hturns.moves with
  | stays hcommitted happlied howes =>
    exact h.stays hk hunderway hturns hcommitted happlied howes
  | commits document change hfree hcommitted happlied howed howes =>
    exact h.commits hk hunderway hturns hfree hcommitted happlied howed howes
  | applies document change hdue hcommitted happlied howed hdone =>
    subst hdone
    exact h.applies hk hturns hdue hcommitted happlied howed

theorem go (h : s.Ordered) (hk : s.requests[k]? = some (request, phase)) (hphase : phase ≠ .done)
    {outcome : Outcome} (hturn : s.InTurn k outcome request phase) :
    (s.go k request phase outcome).Ordered := by
  by_cases hreading : phase = .reading
  · subst hreading
    have hsame : s.office.perform request .reading = (s.office, s.office.read request) := by
      cases request <;> rfl
    have howed : request.owes .reading = none := by cases request <;> rfl
    unfold System.go
    rw [hsame]
    cases outcome with
    | ok =>
      refine h.read hk ?_
      cases request <;> exact hturn rfl
    | failed => exact h.finish hk howed
    | lost => exact h.finish hk howed
  · have hunderway := underway_of_ne hreading hphase
    unfold System.go
    cases outcome with
    | failed => exact h.finish hk (owes_of_failed hturn)
    | ok =>
      exact h.turn hk hunderway (turns_perform h.committed h.written
        (h.knows _ (List.mem_of_getElem? hk)) (h.safe hk hturn (by decide)))
    | lost =>
      have hturns := turns_perform h.committed h.written
        (h.knows _ (List.mem_of_getElem? hk)) (h.safe hk hturn (by decide))
      exact h.turn hk hunderway (hturns.lost (owes_of_lost hturn))

end System.Ordered

theorem System.Ordered.step {s s' : System} (h : s.Ordered) {happening : Happening}
    (hsequential : Sequential s happening) (hstep : s.step happening = some s') : s'.Ordered := by
  cases happening with
  | request request =>
    cases hstep
    have howes : request.owes .reading = none := by cases request <;> rfl
    refine ⟨h.committed, h.written, fun r hr => ?_, fun d c hc => ?_, fun r hr => ?_,
      h.distinct.append SameDebt.symm ?_, h.apart.append Rivals.symm nofun, fun r hr => ?_⟩
    · rcases List.mem_append.1 hr with hr | hr
      · exact h.knows r hr
      · obtain rfl := List.mem_singleton.1 hr
        cases request <;> trivial
    · obtain ⟨r, hr, howes⟩ := h.owed d c hc
      exact ⟨r, List.mem_append_left _ hr, howes⟩
    · rcases List.mem_append.1 hr with hr | hr
      · exact h.due r hr
      · obtain rfl := List.mem_singleton.1 hr
        intro c hc
        rw [howes] at hc
        cases hc
    · rintro other ⟨c, hc, -⟩
      rw [howes] at hc
      cases hc
    · rcases List.mem_append.1 hr with hr | hr
      · exact h.ready r hr
      · obtain rfl := List.mem_singleton.1 hr
        exact nofun
  | manage managed =>
    cases hstep
    exact h.frame rfl rfl rfl rfl rfl
  | reorder entries =>
    by_cases hperm : entries.values.Perm s.office.entries.values
    · rw [System.step, if_pos hperm] at hstep
      cases hstep
      exact h.frame rfl rfl rfl rfl rfl
    · rw [System.step, if_neg hperm] at hstep
      cases hstep
  | go k outcome =>
    unfold System.step at hstep
    cases hk : s.requests[k]? with
    | none => simp [hk] at hstep
    | some r =>
      obtain ⟨request, phase⟩ := r
      simp only [hk] at hstep
      split at hstep
      · cases hstep
      · cases hstep
      · rename_i hdone heq
        cases heq
        cases hstep
        exact h.go hk hdone (hsequential _ hk)

/-! ## What follows -/

theorem Committed.one (h : Committed s) {i j : Nat} {inst other : Instance}
    (hi : s.instances[i]? = some inst) (hj : s.instances[j]? = some other)
    (hsame : inst.document = other.document)
    (hinst : inst.position.running = true) (hother : other.position.running = true) : i = j := by
  have hwaits : ∀ {k : Nat} {x : Instance}, s.instances[k]? = some x → x.position.running = true →
      ∃ review, (log s.committed x.document).getLast?.bind Change.awaits = some (k, review) := by
    intro k x hx hrunning
    cases hposition : x.position with
    | waiting review => exact ⟨review, h.waiting k x review hx hposition⟩
    | ended => rw [hposition] at hrunning; cases hrunning
    | cancelled => rw [hposition] at hrunning; cases hrunning
  obtain ⟨review, hawaits⟩ := hwaits hi hinst
  obtain ⟨review', hawaits'⟩ := hwaits hj hother
  rw [hsame, hawaits'] at hawaits
  cases hawaits
  rfl

/-- The instance of the last change is the only one of the document that may run. -/
theorem Committed.only (h : Committed s) {c : Change}
    (hlast : (log s.committed document).getLast? = some c) {j : Nat} {other : Instance}
    (hj : s.instances[j]? = some other) (hdocument : other.document = document)
    (hrunning : other.position.running = true) : j = c.instanceId := by
  cases hposition : other.position with
  | waiting review =>
    have hawaits := h.waiting j other review hj hposition
    rw [hdocument, hlast] at hawaits
    exact (Change.awaits_eq_some hawaits).1.symm
  | ended => rw [hposition] at hrunning; cases hrunning
  | cancelled => rw [hposition] at hrunning; cases hrunning

/-- Nothing has been committed of the document, so it has no instance. -/
theorem Committed.unstarted (h : Committed s) (hnone : (log s.committed document).getLast? = none)
    (inst : Instance) (hinst : inst ∈ s.instances) : inst.document ≠ document := by
  intro hdocument
  refine h.started inst hinst ?_
  rw [hdocument]
  exact List.getLast?_eq_none_iff.1 hnone

/-- The last change of the document is about an instance of it that is where the change says, and no
other one of its instances runs. -/
theorem Committed.latest (h : Committed s) {c : Change}
    (hlast : (log s.committed document).getLast? = some c) :
    ∃ inst : Instance, s.instances[c.instanceId]? = some inst ∧ inst.document = document ∧
      inst.position = c.position ∧
      ∀ (j : Nat) (other : Instance), s.instances[j]? = some other → other.document = document →
        other.position.running = true → j = c.instanceId := by
  obtain ⟨-, inst, hinst, hdocument⟩ := h.known _ c (List.mem_of_getLast? hlast)
  exact ⟨inst, hinst, hdocument, h.last _ c hlast inst hinst, fun j other => h.only hlast⟩

theorem agrees_timesheet (hc : Committed s) (hw : Written s) {timesheet : Timesheet}
    (hmem : timesheet ∈ s.timesheets.values)
    (hsettled : log s.applied (.timesheet timesheet.id) =
      log s.committed (.timesheet timesheet.id)) :
    timesheet.Agrees s := by
  obtain ⟨hstatus, hlink⟩ := hw.timesheets timesheet hmem
  rw [hsettled] at hstatus hlink
  unfold Timesheet.Agrees
  rw [hlink]
  cases hlast : (log s.committed (.timesheet timesheet.id)).getLast? with
  | none =>
    rw [hlast] at hstatus
    exact ⟨hstatus, hc.unstarted hlast⟩
  | some c =>
    rw [hlast] at hstatus
    obtain ⟨inst, hinst, hdocument, hposition, honly⟩ := hc.latest hlast
    refine ⟨inst, hinst, hdocument, ?_, honly⟩
    rw [hposition, timesheetStatus_position, hstatus]
    rfl

theorem agrees_expense (hc : Committed s) (hw : Written s) {report : ExpenseReport}
    (hmem : report ∈ s.expenses.values)
    (hsettled : log s.applied (.expense report.id) = log s.committed (.expense report.id)) :
    report.Agrees s := by
  obtain ⟨hstatus, hlink⟩ := hw.expenses report hmem
  rw [hsettled] at hstatus hlink
  unfold ExpenseReport.Agrees
  rw [hlink]
  cases hlast : (log s.committed (.expense report.id)).getLast? with
  | none =>
    rw [hlast] at hstatus
    exact ⟨hstatus, hc.unstarted hlast⟩
  | some c =>
    rw [hlast] at hstatus
    obtain ⟨inst, hinst, hdocument, hposition, honly⟩ := hc.latest hlast
    refine ⟨inst, hinst, hdocument, ?_, honly⟩
    rw [hposition, expenseStatus_position, hstatus]
    rfl

theorem System.Ordered.agree {s : System} (h : s.Ordered) : Agree s := by
  refine ⟨fun i j inst other hi hj hsame hinst hother =>
    h.committed.one hi hj hsame hinst hother, h.written.order,
    fun hidle => ?_⟩
  have hlogs : ∀ d, log s.office.applied d = log s.office.committed d := by
    intro d
    have hnone : pending s.office.committed s.office.applied d = [] := by
      refine List.eq_nil_iff_forall_not_mem.2 fun c hc => ?_
      obtain ⟨r, hr, howes⟩ := h.owed d c hc
      rw [hidle r hr] at howes
      cases howes
    rw [h.written.order.log_eq d, hnone, List.append_nil]
  exact ⟨hlogs, fun timesheet hmem => agrees_timesheet h.committed h.written hmem (hlogs _),
    fun report hmem => agrees_expense h.committed h.written hmem (hlogs _)⟩

theorem Office.Fresh.ordered {start : Office} (h : start.Fresh) :
    System.Ordered { office := start } := by
  have hcommitted : ∀ d, log start.committed d = [] := fun d => by rw [h.committed]; rfl
  have happlied : ∀ d, log start.applied d = [] := fun d => by rw [h.applied]; rfl
  refine ⟨⟨?_, ?_, ?_, ?_, ?_, ?_, ?_⟩, ⟨?_, ?_, ?_⟩, nofun, ?_, nofun, Sections.apart_nil,
    Sections.apart_nil, nofun⟩
  · intro d before c after heq
    rw [hcommitted] at heq
    simp at heq
  · intro d c hc
    rw [hcommitted] at hc
    cases hc
  · intro d c hc
    rw [hcommitted] at hc
    cases hc
  · intro i inst review hinst
    rw [h.instances] at hinst
    cases hinst
  · intro d i review decision hc
    rw [hcommitted] at hc
    cases hc
  · intro d
    rw [hcommitted]
    exact List.nodup_nil
  · intro inst hinst
    rw [h.instances] at hinst
    cases hinst
  · intro d
    rw [happlied]
    exact List.nil_prefix
  · intro timesheet hmem
    obtain ⟨hstatus, hlink, -⟩ := h.timesheets timesheet hmem
    rw [happlied]
    exact ⟨hstatus, hlink⟩
  · intro report hmem
    obtain ⟨hstatus, hlink, -⟩ := h.expenses report hmem
    rw [happlied]
    exact ⟨hstatus, hlink⟩
  · intro d c hc
    unfold pending at hc
    rw [hcommitted, List.drop_nil] at hc
    cases hc

/-- In every sequential run of requests on documents that have not been submitted before. -/
theorem documents_agree {start : Office} (hstart : start.Fresh) {s : System}
    (h : Machine.Reaches System.step Sequential { office := start } s) : Agree s :=
  (h.keeps hstart.ordered fun hordered hC hstep => hordered.step hC hstep).agree

/-- A timesheet is submitted and approved; the second submission is refused. -/
theorem documents_agree_approved : ∃ s : System,
    s.office.timesheets.values.map Timesheet.status = [.approved] ∧ Agree s := by
  have hrun : (Machine.runs System.step Sequential
      [.request (.submit "e1" 1), .request (.submit "e1" 1), .go 0 .ok, .go 0 .ok, .go 0 .ok,
        .go 1 .ok, .request (.complete 0 .manager .approved),
        .request (.complete 0 .second .approved), .go 2 .ok, .go 3 .ok, .go 2 .ok, .go 2 .ok,
        .go 2 .ok, .go 3 .ok, .go 3 .ok, .go 3 .ok] { office := drafted }).any (fun s =>
          s.office.timesheets.values.map Timesheet.status = [.approved]) = true := by
    decide +kernel
  obtain ⟨s, hruns, hs⟩ := (Option.any_eq_true ..).1 hrun
  exact ⟨s, of_decide_eq_true hs, documents_agree fresh_drafted (.of_runs hruns)⟩

/-- A timesheet is submitted twice at the same time. -/
theorem not_documents_agree : ¬ ∀ (start : Office) (s : System), start.Fresh →
    Machine.Reaches System.step (fun _ _ => True) { office := start } s → Agree s := by
  intro h
  have hrun : (Machine.runs System.step (fun _ _ => True)
      [.request (.submit "e1" 1), .request (.submit "e1" 1), .go 0 .ok, .go 1 .ok, .go 0 .ok,
        .go 1 .ok] { office := drafted }).any (fun s =>
          s.office.instances =
            [⟨.timesheet 1, 8, .waiting .manager⟩, ⟨.timesheet 1, 8, .waiting .manager⟩]) =
          true := by
    decide +kernel
  obtain ⟨s, hruns, hs⟩ := (Option.any_eq_true ..).1 hrun
  have hinstances := of_decide_eq_true hs
  have hone := (h drafted s fresh_drafted (.of_runs hruns)).one 0 1 _ _
    (by rw [hinstances]; rfl) (by rw [hinstances]; rfl) rfl rfl rfl
  exact absurd hone (by decide)

end NexusWorkflow.Documents
