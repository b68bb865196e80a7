import NexusWorkflow.Lib.Replica
import NexusWorkflow.Proof.Submission

/-!
# What is committed about a document

The workflow service starts instances and completes their tasks; the routes write what comes of it
to the documents.  What the service commits about one document is a sequence in which each change
fits the last one (`Committed`), and what has been written is a replica of it (`Written`).
-/

namespace NexusWorkflow.Documents

open Replica (log Follows pending Due log_concat)

/-! ## Changes -/

namespace Change

def instanceId : Change → Nat
  | started i | decided i _ _ => i

/-- Where the instance is after the change. -/
def position : Change → Position
  | started _ => .waiting .manager
  | decided _ review decision => .next review decision

/-- The review that the instance waits for after the change. -/
def awaits : Change → Option (Nat × Review)
  | started i => some (i, .manager)
  | decided i .manager .approved => some (i, .second)
  | decided _ _ _ => none

/-- The change may come after this one. -/
def fits (last : Option Change) : Change → Prop
  | started _ => last.bind awaits = none
  | decided i review _ => last.bind awaits = some (i, review)

def timesheetStatus : Change → TimesheetStatus
  | started _ => .pending_manager_review
  | decided _ review decision => review.timesheetStatus decision

def expenseStatus : Change → ExpenseReportStatus
  | started _ => .SUBMITTED
  | decided _ review decision => review.expenseStatus decision

theorem awaits_eq_some {c : Change} {i : Nat} {review : Review} (h : c.awaits = some (i, review)) :
    c.instanceId = i ∧ c.position = .waiting review ∧
      c.expenseStatus = review.expectedPreviousStatus := by
  cases c with
  | started j =>
    cases h
    exact ⟨rfl, rfl, rfl⟩
  | decided j r d =>
    cases r <;> cases d <;> cases h
    exact ⟨rfl, rfl, rfl⟩

/-- The document can be edited and submitted after the change. -/
def reopens (c : Change) : Doc → Bool
  | .timesheet _ => c.timesheetStatus.editable
  | .expense _ => c.expenseStatus.editable

theorem awaits_of_reopens {c : Change} {d : Doc} (h : c.reopens d = true) : c.awaits = none := by
  cases c with
  | started i => cases d <;> cases h
  | decided i review decision =>
    cases review
    · cases decision
      · cases d <;> cases h
      · rfl
      · rfl
    · rfl

theorem awaits_of_position {c : Change} {review : Review} (h : c.position = .waiting review) :
    c.awaits = some (c.instanceId, review) := by
  cases c with
  | started j =>
    cases h
    rfl
  | decided j r d =>
    cases r <;> cases d <;> cases h
    rfl

end Change

namespace Position

def running : Position → Bool
  | waiting _ => true
  | ended _ _ | cancelled => false

/-- The instance does not come to this review again. -/
def past : Review → Position → Bool
  | .manager, waiting .manager => false
  | .second, waiting _ => false
  | _, _ => true

theorem past_next {review : Review} {r : Review} (h : past review (waiting r) = true)
    (decision : Decision) :
    past review (next r decision) = true := by
  cases review <;> cases r <;> cases decision <;> first | rfl | cases h

theorem past_next_self (review : Review) (decision : Decision) :
    past review (next review decision) = true := by
  cases review <;> cases decision <;> rfl

/-- The status that goes with it. -/
def timesheetStatus : Position → Option TimesheetStatus
  | waiting .manager => some .pending_manager_review
  | waiting .second => some .pending_hr_review
  | ended _ .approved => some .approved
  | ended _ .rejected => some .rejected
  | ended _ .revision_requested => some .revision_requested
  | cancelled => none

def expenseStatus : Position → Option ExpenseReportStatus
  | waiting .manager => some .SUBMITTED
  | waiting .second => some .APPROVED_MANAGER
  | ended _ .approved => some .REIMBURSED
  | ended _ _ => some .REJECTED
  | cancelled => none

end Position

theorem timesheetStatus_position (c : Change) :
    c.position.timesheetStatus = some c.timesheetStatus := by
  cases c with
  | started i => rfl
  | decided i review decision => cases review <;> cases decision <;> rfl

theorem expenseStatus_position (c : Change) : c.position.expenseStatus = some c.expenseStatus := by
  cases c with
  | started i => rfl
  | decided i review decision => cases review <;> cases decision <;> rfl

/-! ## The two sides -/

/-- No instance of the document is running. -/
def Office.Quiet (s : Office) (document : Doc) : Prop :=
  ∀ inst ∈ s.instances, inst.document = document → inst.position.running = false

/-- The timesheet shows the last change that has been written to it. -/
def Timesheet.Shows (timesheet : Timesheet) (last : Option Change) : Prop :=
  timesheet.status = (last.map Change.timesheetStatus).getD .draft ∧
    timesheet.workflowInstanceId = last.map Change.instanceId

def ExpenseReport.Shows (report : ExpenseReport) (last : Option Change) : Prop :=
  report.status = (last.map Change.expenseStatus).getD .DRAFT ∧
    report.workflowInstanceId = last.map Change.instanceId

/-- What the service has committed. -/
structure Committed (s : Office) : Prop where
  fits : ∀ document before c after, log s.committed document = before ++ c :: after →
    c.fits before.getLast?
  known : ∀ document c, c ∈ log s.committed document →
    s.Has document ∧ ∃ inst : Instance, s.instances[c.instanceId]? = some inst ∧
      inst.document = document
  last : ∀ document c, (log s.committed document).getLast? = some c →
    ∀ inst ∈ s.instances[c.instanceId]?, inst.position = c.position
  waiting : ∀ (i : Nat) (inst : Instance) review, s.instances[i]? = some inst →
    inst.position = .waiting review →
    (log s.committed inst.document).getLast?.bind Change.awaits = some (i, review)
  past : ∀ document i review decision, .decided i review decision ∈ log s.committed document →
    ∀ inst ∈ s.instances[i]?, inst.position.past review = true
  nodup : ∀ document, (log s.committed document).Nodup
  /-- An instance belongs to a document of which something has been committed. -/
  started : ∀ inst ∈ s.instances, log s.committed inst.document ≠ []

/-- What has been written of it. -/
structure Written (s : Office) : Prop where
  order : Follows s.committed s.applied
  timesheets : ∀ timesheet ∈ s.timesheets.values,
    timesheet.Shows (log s.applied (.timesheet timesheet.id)).getLast?
  expenses : ∀ report ∈ s.expenses.values,
    report.Shows (log s.applied (.expense report.id)).getLast?

variable {s s' : Office} {document : Doc}

theorem fits_concat {l : List Change} {c : Change} (h : ∀ before x after, l = before ++ x :: after →
    x.fits before.getLast?) (hc : c.fits l.getLast?) :
    ∀ before x after, l ++ [c] = before ++ x :: after → x.fits before.getLast? := by
  intro before x after heq
  rcases List.eq_nil_or_concat after with rfl | ⟨after', last, rfl⟩
  · obtain ⟨rfl, hx⟩ := List.append_inj' heq rfl
    cases hx
    exact hc
  · have heq' : l ++ [c] = (before ++ x :: after') ++ [last] := by rw [heq]; simp
    exact h before x after' (List.append_inj' heq' rfl).1

namespace Committed

/-- The instance that the last change leaves waiting is running. -/
theorem running_of_awaits (h : Committed s) {i : Nat} {review : Review}
    (hlast : (log s.committed document).getLast?.bind Change.awaits = some (i, review)) :
    ∃ inst : Instance, s.instances[i]? = some inst ∧ inst.document = document ∧
      inst.position = .waiting review := by
  obtain ⟨c, hc, hawaits⟩ := Option.bind_eq_some_iff.1 hlast
  obtain ⟨rfl, hposition, -⟩ := Change.awaits_eq_some hawaits
  obtain ⟨-, inst, hinst, hdocument⟩ := h.known document c (List.mem_of_getLast? hc)
  exact ⟨inst, hinst, hdocument, (h.last document c hc inst hinst).trans hposition⟩

theorem start (h : Committed s) (hhas : s.Has document) (hquiet : s.Quiet document) (total : ℚ) :
    Committed (s.start document total) := by
  have hnew : (s.instances ++ [{ document, totalHours := total }])[s.instances.length]? =
      some { document, totalHours := total } := List.getElem?_concat_length
  have hold : ∀ (i : Nat) (inst : Instance), s.instances[i]? = some inst →
      (s.instances ++ [{ document, totalHours := total }])[i]? = some inst := by
    intro i inst hinst
    rw [List.getElem?_append_left (List.getElem?_eq_some_iff.1 hinst).1]
    exact hinst
  have hlt : ∀ document c, c ∈ log s.committed document → c.instanceId < s.instances.length := by
    intro document c hc
    obtain ⟨-, inst, hinst, -⟩ := h.known document c hc
    exact (List.getElem?_eq_some_iff.1 hinst).1
  have hlog : ∀ d, log (s.start document total).committed d =
      if document = d then log s.committed d ++ [.started s.instances.length]
        else log s.committed d :=
    fun d => log_concat _ _ _ _
  refine ⟨?_, ?_, ?_, ?_, ?_, ?_, ?_⟩
  · intro d
    rw [hlog]
    split_ifs with hd
    · subst hd
      refine fits_concat (h.fits document) ?_
      -- nothing is awaited, since no instance is running
      unfold Change.fits
      cases hlast : (log s.committed document).getLast?.bind Change.awaits with
      | none => rfl
      | some next =>
        obtain ⟨inst, hinst, hdocument, hposition⟩ := h.running_of_awaits hlast
        have hrunning := hquiet inst (List.mem_of_getElem? hinst) hdocument
        rw [hposition] at hrunning
        cases hrunning
    · exact h.fits d
  · intro d c hc
    rw [hlog] at hc
    have hcases : c ∈ log s.committed d ∨ document = d ∧ c = .started s.instances.length := by
      split_ifs at hc with hd
      · rcases List.mem_append.1 hc with hc | hc
        · exact Or.inl hc
        · exact Or.inr ⟨hd, List.mem_singleton.1 hc⟩
      · exact Or.inl hc
    rcases hcases with hc | ⟨rfl, rfl⟩
    · obtain ⟨hhas, inst, hinst, hdocument⟩ := h.known d c hc
      exact ⟨hhas, inst, hold _ _ hinst, hdocument⟩
    · exact ⟨hhas, _, hnew, rfl⟩
  · intro d c hc inst hinst
    rw [hlog] at hc
    split_ifs at hc with hd
    · rw [List.getLast?_concat] at hc
      cases hc
      obtain rfl : _ = inst := Option.some.inj (hnew.symm.trans hinst)
      rfl
    · have hi := hlt d c (List.mem_of_getLast? hc)
      refine h.last d c hc inst ?_
      rwa [Option.mem_def, ← List.getElem?_append_left hi]
  · intro i inst review hinst hposition
    rw [hlog]
    by_cases hi : i < s.instances.length
    · have hinst' : s.instances[i]? = some inst := by
        rw [← hinst]
        exact (List.getElem?_append_left hi).symm
      have hne : document ≠ inst.document := by
        intro heq
        have hrunning := hquiet inst (List.mem_of_getElem? hinst') heq.symm
        rw [hposition] at hrunning
        cases hrunning
      rw [if_neg hne]
      exact h.waiting i inst review hinst' hposition
    · have hlen := (List.getElem?_eq_some_iff.1 hinst).1
      obtain rfl : i = s.instances.length := by
        rw [Office.start, List.length_append, List.length_singleton] at hlen
        omega
      obtain rfl : _ = inst := Option.some.inj (hnew.symm.trans hinst)
      cases hposition
      rw [if_pos rfl, List.getLast?_concat]
      rfl
  · intro d i review decision hc inst hinst
    rw [hlog] at hc
    have hc' : .decided i review decision ∈ log s.committed d := by
      split_ifs at hc with hd
      · rcases List.mem_append.1 hc with hc | hc
        · exact hc
        · cases List.mem_singleton.1 hc
      · exact hc
    have hi : i < s.instances.length := hlt d _ hc'
    refine h.past d i review decision hc' inst ?_
    rwa [Option.mem_def, ← List.getElem?_append_left hi]
  · intro d
    rw [hlog]
    split_ifs with hd
    · refine List.nodup_append.2 ⟨h.nodup d, List.nodup_singleton _, ?_⟩
      rintro c hc c' hc' rfl
      rw [List.mem_singleton.1 hc'] at hc
      exact absurd (hlt d _ hc) (Nat.lt_irrefl _)
    · exact h.nodup d
  · intro inst hinst
    rw [hlog]
    rcases List.mem_append.1 hinst with hinst | hinst
    · split_ifs
      · exact List.append_ne_nil_of_right_ne_nil _ (List.cons_ne_nil _ _)
      · exact h.started inst hinst
    · obtain rfl := List.mem_singleton.1 hinst
      rw [if_pos rfl]
      exact List.append_ne_nil_of_right_ne_nil _ (List.cons_ne_nil _ _)

theorem decided (h : Committed s) {i : Nat} {inst : Instance} {review : Review}
    (hinst : s.instances[i]? = some inst) (hposition : inst.position = .waiting review)
    (decision : Decision) :
    Committed { s with
      instances := s.instances.set i { inst with position := .next review decision }
      committed := s.committed ++ [(inst.document, .decided i review decision)] } := by
  have hi : i < s.instances.length := (List.getElem?_eq_some_iff.1 hinst).1
  have hself : (s.instances.set i { inst with position := .next review decision })[i]? =
      some { inst with position := .next review decision } := List.getElem?_set_self hi
  have hother : ∀ j, j ≠ i →
      (s.instances.set i { inst with position := .next review decision })[j]? =
      s.instances[j]? := fun j hj => List.getElem?_set_ne hj.symm
  have hlast := h.waiting i inst review hinst hposition
  have hlog : ∀ d, log (s.committed ++ [(inst.document, .decided i review decision)]) d =
      if inst.document = d then log s.committed d ++ [.decided i review decision]
        else log s.committed d :=
    fun d => log_concat _ _ _ _
  refine ⟨?_, ?_, ?_, ?_, ?_, ?_, ?_⟩
  · intro d
    rw [hlog]
    split_ifs with hd
    · subst hd
      exact fits_concat (h.fits _) hlast
    · exact h.fits d
  · intro d c hc
    have hdocument : s.Has d ∧ ∃ x : Instance, s.instances[c.instanceId]? = some x ∧
        x.document = d := by
      rw [hlog] at hc
      split_ifs at hc with hd
      · rcases List.mem_append.1 hc with hc | hc
        · exact h.known d c hc
        · obtain rfl := List.mem_singleton.1 hc
          obtain ⟨last, hmem, -⟩ := Option.bind_eq_some_iff.1 hlast
          exact ⟨hd ▸ (h.known _ last (List.mem_of_getLast? hmem)).1, inst, hinst, hd⟩
      · exact h.known d c hc
    obtain ⟨hhas, x, hx, hxd⟩ := hdocument
    refine ⟨hhas, ?_⟩
    by_cases hci : c.instanceId = i
    · rw [hci] at hx ⊢
      obtain rfl : inst = x := Option.some.inj (hinst.symm.trans hx)
      exact ⟨_, hself, hxd⟩
    · exact ⟨x, (hother _ hci).trans hx, hxd⟩
  · intro d c hc x hx
    rw [hlog] at hc
    split_ifs at hc with hd
    · rw [List.getLast?_concat] at hc
      cases hc
      obtain rfl : _ = x := Option.some.inj (hself.symm.trans hx)
      rfl
    · have hci : c.instanceId ≠ i := by
        intro hci
        obtain ⟨-, y, hy, hyd⟩ := h.known d c (List.mem_of_getLast? hc)
        rw [hci, hinst] at hy
        cases hy
        exact hd hyd
      exact h.last d c hc x ((hother _ hci).symm.trans hx)
  · intro j x r hx hxposition
    rw [hlog]
    by_cases hji : j = i
    · subst hji
      obtain rfl : _ = x := Option.some.inj (hself.symm.trans hx)
      rw [if_pos rfl, List.getLast?_concat]
      exact Change.awaits_of_position hxposition
    · have hx' : s.instances[j]? = some x := (hother j hji).symm.trans hx
      have hwaiting := h.waiting j x r hx' hxposition
      split_ifs with hd
      · rw [← hd, hlast] at hwaiting
        cases hwaiting
        exact absurd rfl hji
      · exact hwaiting
  · intro d j r dec hc x hx
    rw [hlog] at hc
    have hcases : .decided j r dec ∈ log s.committed d ∨ j = i ∧ r = review := by
      split_ifs at hc with hd
      · rcases List.mem_append.1 hc with hc | hc
        · exact Or.inl hc
        · cases List.mem_singleton.1 hc
          exact Or.inr ⟨rfl, rfl⟩
      · exact Or.inl hc
    rcases hcases with hbefore | ⟨rfl, rfl⟩
    · by_cases hji : j = i
      · subst hji
        obtain rfl : _ = x := Option.some.inj (hself.symm.trans hx)
        have hpast := h.past d j r dec hbefore inst hinst
        rw [hposition] at hpast
        exact Position.past_next hpast decision
      · exact h.past d j r dec hbefore x ((hother j hji).symm.trans hx)
    · obtain rfl : _ = x := Option.some.inj (hself.symm.trans hx)
      exact Position.past_next_self r decision
  · intro d
    rw [hlog]
    split_ifs with hd
    · refine List.nodup_append.2 ⟨h.nodup d, List.nodup_singleton _, ?_⟩
      rintro c hc c' hc' rfl
      rw [List.mem_singleton.1 hc'] at hc
      -- the instance would not wait for this review any more
      have hpast := h.past d i review decision hc inst hinst
      rw [hposition] at hpast
      cases review <;> cases hpast
    · exact h.nodup d
  · intro x hx
    have hdocument : ∃ y ∈ s.instances, y.document = x.document := by
      rcases List.mem_or_eq_of_mem_set hx with hx | rfl
      · exact ⟨x, hx, rfl⟩
      · exact ⟨inst, List.mem_of_getElem? hinst, rfl⟩
    obtain ⟨y, hy, hyd⟩ := hdocument
    rw [hlog]
    split_ifs
    · exact List.append_ne_nil_of_right_ne_nil _ (List.cons_ne_nil _ _)
    · exact hyd ▸ h.started y hy

/-- Nothing is committed. -/
theorem frame (h : Committed s) (hcommitted : s'.committed = s.committed)
    (hinstances : s'.instances = s.instances) (hhas : ∀ d, s.Has d → s'.Has d) : Committed s' := by
  refine ⟨?_, ?_, ?_, ?_, ?_, ?_, ?_⟩
  · rw [hcommitted]; exact h.fits
  · rw [hcommitted, hinstances]
    intro d c hc
    obtain ⟨hd, hinst⟩ := h.known d c hc
    exact ⟨hhas d hd, hinst⟩
  · rw [hcommitted, hinstances]; exact h.last
  · rw [hcommitted, hinstances]; exact h.waiting
  · rw [hcommitted, hinstances]; exact h.past
  · rw [hcommitted]; exact h.nodup
  · rw [hcommitted, hinstances]; exact h.started

end Committed

namespace Written

theorem frame (h : Written s) (hcommitted : s'.committed = s.committed)
    (happlied : s'.applied = s.applied) (htimesheets : s'.timesheets = s.timesheets)
    (hexpenses : s'.expenses = s.expenses) : Written s' := by
  refine ⟨?_, ?_, ?_⟩
  · rw [hcommitted, happlied]; exact h.order
  · rw [htimesheets, happlied]; exact h.timesheets
  · rw [hexpenses, happlied]; exact h.expenses

theorem commit (h : Written s) (document : Doc) (c : Change)
    (hcommitted : s'.committed = s.committed ++ [(document, c)]) (happlied : s'.applied = s.applied)
    (htimesheets : s'.timesheets = s.timesheets)
    (hexpenses : s'.expenses = s.expenses) : Written s' := by
  refine ⟨?_, ?_, ?_⟩
  · rw [hcommitted, happlied]; exact h.order.commit document c
  · rw [htimesheets, happlied]; exact h.timesheets
  · rw [hexpenses, happlied]; exact h.expenses

/-- The content of an expense report changes. -/
theorem setReport (h : Written s) {report : ExpenseReport}
    (hreport : report.Shows (log s.applied (.expense report.id)).getLast?) :
    Written { s with expenses := s.expenses.set report } := by
  refine ⟨h.order, h.timesheets, fun other hmem => ?_⟩
  rcases KeyedMap.mem_set.1 hmem with rfl | ⟨hmem, -⟩
  · exact hreport
  · exact h.expenses other hmem

theorem applyTimesheet (h : Written s) {timesheet : Timesheet} {c : Change}
    (hdue : Due s.committed s.applied (.timesheet timesheet.id) c)
    (hstatus : timesheet.status = c.timesheetStatus)
    (hlink : timesheet.workflowInstanceId = some c.instanceId) :
    Written { s with timesheets := s.timesheets.set timesheet
                     applied := s.applied ++ [(.timesheet timesheet.id, c)] } := by
  refine ⟨h.order.apply hdue, fun other hmem => ?_, fun report hmem => ?_⟩
  · rw [log_concat]
    rcases KeyedMap.mem_set.1 hmem with rfl | ⟨hmem, hne⟩
    · rw [if_pos rfl, List.getLast?_concat]
      exact ⟨hstatus, hlink⟩
    · rw [if_neg fun heq => hne (Doc.timesheet.inj heq).symm]
      exact h.timesheets other hmem
  · rw [log_concat, if_neg nofun]
    exact h.expenses report hmem

theorem applyExpense (h : Written s) {report : ExpenseReport} {c : Change}
    (hdue : Due s.committed s.applied (.expense report.id) c)
    (hstatus : report.status = c.expenseStatus)
    (hlink : report.workflowInstanceId = some c.instanceId) :
    Written { s with
      expenses := s.expenses.set report
      applied := s.applied ++ [(.expense report.id, c)] } := by
  refine ⟨h.order.apply hdue, fun timesheet hmem => ?_, fun other hmem => ?_⟩
  · rw [log_concat, if_neg nofun]
    exact h.timesheets timesheet hmem
  · rw [log_concat]
    rcases KeyedMap.mem_set.1 hmem with rfl | ⟨hmem, hne⟩
    · rw [if_pos rfl, List.getLast?_concat]
      exact ⟨hstatus, hlink⟩
    · rw [if_neg fun heq => hne (Doc.expense.inj heq).symm]
      exact h.expenses other hmem

/-- The status tells whether the last change that has been written reopens the document. -/
theorem editable_iff (h : Written s) (hhas : s.Has document) : s.Editable document ↔
    ∀ c, (log s.applied document).getLast? = some c → c.reopens document = true := by
  cases document with
  | timesheet id =>
    obtain ⟨timesheet, hget⟩ := Option.ne_none_iff_exists'.1 hhas
    obtain rfl : timesheet.id = id := KeyedMap.key_of_get? hget
    rw [editable_timesheet hget, (h.timesheets timesheet (KeyedMap.mem_of_get? hget)).1]
    cases (log s.applied (.timesheet timesheet.id)).getLast? with
    | none => simp [TimesheetStatus.editable]
    | some last => simp [Change.reopens]
  | expense id =>
    obtain ⟨report, hget⟩ := Option.ne_none_iff_exists'.1 hhas
    obtain rfl : report.id = id := KeyedMap.key_of_get? hget
    rw [editable_expense hget, (h.expenses report (KeyedMap.mem_of_get? hget)).1]
    cases (log s.applied (.expense report.id)).getLast? with
    | none => simp [ExpenseReportStatus.editable]
    | some last => simp [Change.reopens]

end Written

/-- Nothing runs when all that was committed has been written and the document is open again. -/
theorem quiet_of_reopened (hc : Committed s) (hw : Written s)
    (hreopened : ∀ c, (log s.applied document).getLast? = some c → c.reopens document = true)
    (hpending : pending s.committed s.applied document = []) : s.Quiet document := by
  intro inst hinst hdocument
  obtain ⟨i, hi⟩ := List.mem_iff_getElem?.1 hinst
  cases hposition : inst.position with
  | waiting review =>
    have hlast := hc.waiting i inst review hi hposition
    rw [hdocument, hw.order.log_eq, hpending, List.append_nil] at hlast
    obtain ⟨c, hc', hawaits⟩ := Option.bind_eq_some_iff.1 hlast
    rw [Change.awaits_of_reopens (hreopened c hc')] at hawaits
    cases hawaits
  | ended review decision => rfl
  | cancelled => rfl

/-- A decision that is due belongs to the instance that the document shows. -/
theorem last_of_due (hc : Committed s) (hw : Written s) {i : Nat} {review : Review}
    {decision : Decision} (hdue : Due s.committed s.applied document (.decided i review decision)) :
    ∃ c, (log s.applied document).getLast? = some c ∧ c.awaits = some (i, review) := by
  have hfits := hc.fits document _ _ _ (hw.order.log_eq_of_due hdue)
  exact Option.bind_eq_some_iff.1 hfits

end NexusWorkflow.Documents
