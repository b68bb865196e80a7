import NexusWorkflow.Lib.Sections
import NexusWorkflow.Model.Documents

/-!
# What is approved

A document that has been submitted stays as it is until it is sent back, and its instance was given
the hours that its entries sum up to, in every run in which no edit of a document is under way while
the document is being submitted.  Each route checks the status of the document in its first query
and writes in a later one; what holds in between is held by nothing but this exclusion.
-/

namespace NexusWorkflow.Documents

open Double (fl fl_of_bits)
open Machine (Outcome)

variable {s s' : Office}

/-! ## Hours -/

/-- Whole quarters of an hour, and not too many: such hours are summed without rounding. -/
def Quarters (entries : List TimesheetEntry) : Prop :=
  (∀ e ∈ entries, 25 ∣ e.data.hours) ∧ (entries.map (·.data.hours)).sum < 25 * 2 ^ 53

instance (entries : List TimesheetEntry) : Decidable (Quarters entries) := by
  unfold Quarters
  infer_instance

theorem fl_quarters {n : ℕ} (hdvd : 25 ∣ n) (hn : n < 25 * 2 ^ 53) : fl (n / 100) = n / 100 := by
  obtain ⟨k, rfl⟩ := hdvd
  have hk : k < 2 ^ 53 := by omega
  have hbits : ((25 * k : ℕ) : ℚ) / 100 = k * 2 ^ (-2 : ℤ) := by
    push_cast
    norm_num
    ring
  rw [hbits]
  exact fl_of_bits hk (-2)

theorem foldl_number {entries : List TimesheetEntry} {n : ℕ} (hn : 25 ∣ n)
    (hdvd : ∀ e ∈ entries, 25 ∣ e.data.hours)
    (hsum : n + (entries.map (·.data.hours)).sum < 25 * 2 ^ 53) :
    entries.foldl (fun sum e => fl (sum + e.number)) (n / 100) =
      ((n + (entries.map (·.data.hours)).sum : ℕ) : ℚ) / 100 := by
  induction entries generalizing n with
  | nil => simp
  | cons e entries ih =>
    obtain ⟨he, hrest⟩ := List.forall_mem_cons.1 hdvd
    rw [List.map_cons, List.sum_cons] at hsum ⊢
    have hnumber : e.number = e.data.hours / 100 := fl_quarters he (by omega)
    have hadd : fl ((n : ℚ) / 100 + e.number) = ((n + e.data.hours : ℕ) : ℚ) / 100 := by
      rw [hnumber, ← add_div, ← Nat.cast_add]
      exact fl_quarters (dvd_add hn he) (by omega)
    rw [List.foldl_cons, hadd, ih (dvd_add hn he) hrest (by omega), add_assoc]

/-- The total is exact. -/
theorem totalHours_of_quarters {entries : List TimesheetEntry} (h : Quarters entries) :
    totalHours entries = ((entries.map (·.data.hours)).sum : ℕ) / 100 := by
  have hfold := foldl_number (n := 0) (dvd_zero 25) h.1 (by simpa using h.2)
  simpa [totalHours] using hfold

theorem Quarters.perm {entries entries' : List TimesheetEntry} (h : Quarters entries)
    (hperm : entries'.Perm entries) : Quarters entries' := by
  refine ⟨fun e he => h.1 e (hperm.subset he), ?_⟩
  rw [(hperm.map _).sum_eq]
  exact h.2

/-- The total does not depend on the order. -/
theorem Quarters.totalHours_perm {entries entries' : List TimesheetEntry} (h : Quarters entries)
    (hperm : entries'.Perm entries) : totalHours entries' = totalHours entries := by
  rw [totalHours_of_quarters (h.perm hperm), totalHours_of_quarters h, (hperm.map _).sum_eq]

/-! ## What is promised -/

structure Timesheet.Settled (s : Office) (timesheet : Timesheet) : Prop where
  /-- The entries are those that were submitted. -/
  entries : ∀ submitted, timesheet.submitted = some submitted →
    (s.entriesOf timesheet.id).Perm submitted
  /-- The instance was given the sum that the reviewers see. -/
  hours : timesheet.submitted ≠ none → ∃ i inst, timesheet.workflowInstanceId = some i ∧
    s.instances[i]? = some inst ∧ inst.totalHours = totalHours (s.entriesOf timesheet.id)
  pending : timesheet.status = .pending_manager_review → timesheet.submitted ≠ none

structure ExpenseReport.Settled (report : ExpenseReport) : Prop where
  content : ∀ submitted, report.submitted = some submitted →
    (report.lineItems, report.receiptPath) = submitted
  pending : report.status = .SUBMITTED → report.submitted ≠ none

structure AsSubmitted (s : Office) : Prop where
  timesheets : ∀ timesheet ∈ s.timesheets.values, timesheet.Settled s
  expenses : ∀ report ∈ s.expenses.values, report.Settled

/-! ## The schedule -/

/-- The request is past its first query, and not over. -/
def Phase.underway : Phase → Bool
  | .reading | .done => false
  | _ => true

theorem underway_of_ne {phase : Phase} (hreading : phase ≠ .reading) (hdone : phase ≠ .done) :
    phase.underway = true := by
  unfold Phase.underway
  split
  · exact absurd rfl hreading
  · exact absurd rfl hdone
  · rfl

namespace Request

/-- The document whose content the request changes. -/
def edits : Request → Option Doc
  | createEntry _ timesheetId _ | updateEntry _ timesheetId .. | deleteEntry _ timesheetId _ =>
    some (.timesheet timesheetId)
  | patch _ expenseId (some _) _ | uploadReceipt _ expenseId _ => some (.expense expenseId)
  | submit .. | patch .. | complete .. => none

/-- The document that the request submits. -/
def submits : Request → Option Doc
  | submit _ timesheetId => some (.timesheet timesheetId)
  | patch _ expenseId _ true => some (.expense expenseId)
  | _ => none

/-- The document that the request is about. -/
def document : Request → Option Doc
  | createEntry _ timesheetId _ | updateEntry _ timesheetId .. | deleteEntry _ timesheetId _
  | submit _ timesheetId => some (.timesheet timesheetId)
  | patch _ expenseId .. | uploadReceipt _ expenseId _ => some (.expense expenseId)
  | complete .. => none

theorem document_of_edits {request : Request} {d : Doc} (h : request.edits = some d) :
    request.document = some d := by
  unfold edits at h
  split at h <;> cases h <;> rfl

theorem document_of_submits {request : Request} {d : Doc} (h : request.submits = some d) :
    request.document = some d := by
  unfold submits at h
  split at h <;> cases h <;> rfl

/-- One of them edits what the other one submits. -/
def Clashes (request other : Request) : Prop :=
  (∃ document ∈ request.edits, other.submits = some document) ∨
    ∃ document ∈ other.edits, request.submits = some document

instance (request other : Request) : Decidable (request.Clashes other) := by
  unfold Clashes
  infer_instance

theorem Clashes.symm {request other : Request} (h : request.Clashes other) :
    other.Clashes request := Or.symm h

end Request

/-- The document is not submitted. -/
def Office.Open (s : Office) : Doc → Prop
  | .timesheet id => ∀ timesheet ∈ s.timesheets.get? id, timesheet.submitted = none
  | .expense id => ∀ report ∈ s.expenses.get? id, report.submitted = none

instance (d : Doc) : Decidable (s.Open d) := by
  unfold Office.Open
  split <;> infer_instance

/-- With the entries in this order, those of the timesheet have the sum that they have now. -/
def Office.SameSum (s : Office) (entries : KeyedMap TimesheetEntry.id) (timesheetId : Nat) : Prop :=
  Office.entriesOf { s with entries } timesheetId = s.entriesOf timesheetId ∨
    Quarters (s.entriesOf timesheetId)

instance (entries : KeyedMap TimesheetEntry.id) (timesheetId : Nat) :
    Decidable (s.SameSum entries timesheetId) := by
  unfold Office.SameSum
  infer_instance

/-- A request goes on after its first query only while none is under way that submits what it
edits, or edits what it submits.  The entries of a timesheet that is submitted, or is being
submitted, keep their order, unless their sum does not depend on it. -/
def Exclusive (s : System) : Happening → Prop
  | .go c outcome => ∀ r ∈ s.requests[c]?, r.2 = .reading → outcome = .ok →
      ∀ other ∈ s.requests.eraseIdx c, other.2.underway = true → ¬ r.1.Clashes other.1
  | .reorder entries => ∀ e ∈ entries.values, s.office.SameSum entries e.timesheetId ∨
      s.office.Open (.timesheet e.timesheetId) ∧ ∀ r ∈ s.requests, r.2.underway = true →
        r.1.submits ≠ some (.timesheet e.timesheetId)
  | .request _ | .manage _ => True

instance decidableExclusive (s : System) : (h : Happening) → Decidable (Exclusive s h)
  | .go c outcome => inferInstanceAs (Decidable (∀ r ∈ s.requests[c]?, r.2 = .reading →
      outcome = .ok → ∀ other ∈ s.requests.eraseIdx c, other.2.underway = true →
        ¬ r.1.Clashes other.1))
  | .reorder entries => inferInstanceAs (Decidable (∀ e ∈ entries.values,
      s.office.SameSum entries e.timesheetId ∨
        s.office.Open (.timesheet e.timesheetId) ∧ ∀ r ∈ s.requests, r.2.underway = true →
          r.1.submits ≠ some (.timesheet e.timesheetId)))
  | .request _ | .manage _ => isTrue trivial

/-! ## What the calls keep -/

/-- The document is in its table. -/
def Office.Has (s : Office) : Doc → Prop
  | .timesheet id => s.timesheets.get? id ≠ none
  | .expense id => s.expenses.get? id ≠ none

/-- The status of the document allows edits and a submission. -/
def Office.Editable (s : Office) : Doc → Prop
  | .timesheet id => ∀ timesheet ∈ s.timesheets.get? id, timesheet.status.editable = true
  | .expense id => ∀ report ∈ s.expenses.get? id, report.status.editable = true

theorem editable_timesheet {id : Nat} {timesheet : Timesheet}
    (hget : s.timesheets.get? id = some timesheet) :
    s.Editable (.timesheet id) ↔ timesheet.status.editable = true := by
  simp [Office.Editable, hget]

theorem editable_expense {id : Nat} {report : ExpenseReport}
    (hget : s.expenses.get? id = some report) :
    s.Editable (.expense id) ↔ report.status.editable = true := by
  simp [Office.Editable, hget]

/-- The instances are there, and they have been given the same. -/
def Extends (instances instances' : List Instance) : Prop :=
  ∀ (i : Nat) (inst : Instance), instances[i]? = some inst →
    ∃ inst' : Instance, instances'[i]? = some inst' ∧ inst'.totalHours = inst.totalHours ∧
      inst'.document = inst.document

theorem extends_refl (instances : List Instance) : Extends instances instances :=
  fun _ inst hi => ⟨inst, hi, rfl, rfl⟩

theorem extends_append (instances : List Instance) (inst : Instance) :
    Extends instances (instances ++ [inst]) := by
  intro i x hx
  refine ⟨x, ?_, rfl, rfl⟩
  rw [List.getElem?_append_left (List.getElem?_eq_some_iff.1 hx).1]
  exact hx

theorem extends_set {instances : List Instance} {i : Nat} {inst : Instance}
    (hi : instances[i]? = some inst) (position : Position) :
    Extends instances (instances.set i { inst with position }) := by
  intro j x hx
  by_cases hij : i = j
  · subst hij
    obtain rfl : inst = x := Option.some.inj (hi.symm.trans hx)
    exact ⟨_, List.getElem?_set_self (List.getElem?_eq_some_iff.1 hi).1, rfl, rfl⟩
  · exact ⟨x, by rw [List.getElem?_set_ne hij]; exact hx, rfl, rfl⟩

/-- Each entry has got its id from the sequence. -/
def Office.Numbered (s : Office) : Prop := ∀ e ∈ s.entries.values, e.id < s.entryIds

/-- What one call of a request does to what others rely on. -/
structure Office.Leaves (s s' : Office) (request : Request) (next : Phase) : Prop where
  entries : ∀ id, request.edits ≠ some (.timesheet id) → s'.entriesOf id = s.entriesOf id
  opened : ∀ d, s.Open d → s'.Open d ∨ request.submits = some d ∧ next = .done
  editable : (∀ d, s.Editable d → s.Open d) → ∀ d, s'.Editable d → s'.Open d
  instances : Extends s.instances s'.instances
  /-- No entry passes from one timesheet to another. -/
  owners : ∀ id < s.entryIds, ∀ e' ∈ s'.entries.get? id,
    ∃ e ∈ s.entries.get? id, e.timesheetId = e'.timesheetId
  entryIds : s.entryIds ≤ s'.entryIds
  numbered : s.Numbered → s'.Numbered

/-- What a request has learnt from its earlier calls. -/
def Office.Told (s : Office) : Request → Phase → Prop
  | .updateEntry _ timesheetId entryId .., .writing
  | .deleteEntry _ timesheetId entryId, .writing =>
    entryId < s.entryIds ∧ ∀ e ∈ s.entries.get? entryId, e.timesheetId = timesheetId
  | .submit _ timesheetId, .starting total => total = totalHours (s.entriesOf timesheetId)
  | .submit _ timesheetId, .linking (some i) => ∃ inst : Instance, s.instances[i]? = some inst ∧
      inst.totalHours = totalHours (s.entriesOf timesheetId)
  | .patch _ _ _ submitted, .readingManager | .patch _ _ _ submitted, .starting _
  | .patch _ _ _ submitted, .linking (some _) => submitted = true
  | _, _ => True

theorem told_done (request : Request) : s.Told request .done := by
  unfold Office.Told
  split <;> trivial

/-- It stays true while the sums of the entries that the request submits stay the same. -/
theorem Office.Told.mono {request : Request} {phase : Phase} (h : s.Told request phase)
    (hids : s.entryIds ≤ s'.entryIds)
    (howners : ∀ id < s.entryIds, ∀ e' ∈ s'.entries.get? id,
      ∃ e ∈ s.entries.get? id, e.timesheetId = e'.timesheetId)
    (hinstances : Extends s.instances s'.instances)
    (htotal : phase.underway = true → ∀ id, request.submits = some (.timesheet id) →
      totalHours (s'.entriesOf id) = totalHours (s.entriesOf id)) : s'.Told request phase := by
  have howned : ∀ timesheetId entryId,
      (entryId < s.entryIds ∧ ∀ e ∈ s.entries.get? entryId, e.timesheetId = timesheetId) →
        entryId < s'.entryIds ∧ ∀ e ∈ s'.entries.get? entryId, e.timesheetId = timesheetId := by
    intro timesheetId entryId ⟨hlt, howner⟩
    refine ⟨hlt.trans_le hids, fun e' he' => ?_⟩
    obtain ⟨e, he, hsame⟩ := howners _ hlt e' he'
    rw [← hsame]
    exact howner e he
  unfold Office.Told at h ⊢
  split
  · exact howned _ _ h
  · exact howned _ _ h
  · rw [htotal rfl _ rfl]
    exact h
  · obtain ⟨inst, hinst, hhours⟩ := h
    obtain ⟨inst', hinst', hsame, -⟩ := hinstances _ inst hinst
    refine ⟨inst', hinst', ?_⟩
    rw [htotal rfl _ rfl, hsame]
    exact hhours
  · exact h
  · exact h
  · exact h
  · trivial

namespace Office.Leaves

variable {request : Request} {next : Phase}

/-- Only the instances change. -/
theorem of_instances (htimesheets : s'.timesheets = s.timesheets)
    (hexpenses : s'.expenses = s.expenses) (hentries : s'.entries = s.entries)
    (hids : s'.entryIds = s.entryIds) (hinstances : Extends s.instances s'.instances) :
    s.Leaves s' request next := by
  have hopen : ∀ d, s'.Open d ↔ s.Open d := by
    intro d
    unfold Open
    rw [htimesheets, hexpenses]
  have heditable : ∀ d, s'.Editable d ↔ s.Editable d := by
    intro d
    unfold Editable
    rw [htimesheets, hexpenses]
  refine ⟨fun id _ => ?_, fun d hd => .inl ((hopen d).2 hd), fun h d hd => ?_, hinstances,
    fun id _ e' he' => ⟨e', ?_, rfl⟩, hids.ge, fun hnumbered => ?_⟩
  · rw [entriesOf, hentries]
    rfl
  · exact (hopen d).2 (h d ((heditable d).1 hd))
  · rwa [hentries] at he'
  · unfold Numbered
    rw [hentries, hids]
    exact hnumbered

theorem refl : s.Leaves s request next := of_instances rfl rfl rfl rfl (extends_refl _)

/-- Only the entries of one timesheet change. -/
theorem of_entries (htimesheets : s'.timesheets = s.timesheets)
    (hexpenses : s'.expenses = s.expenses) (hinstances : s'.instances = s.instances)
    (hentries : ∀ id, request.edits ≠ some (.timesheet id) → s'.entriesOf id = s.entriesOf id)
    (howners : ∀ id < s.entryIds, ∀ e' ∈ s'.entries.get? id,
      ∃ e ∈ s.entries.get? id, e.timesheetId = e'.timesheetId)
    (hids : s.entryIds ≤ s'.entryIds) (hnumbered : s.Numbered → s'.Numbered) :
    s.Leaves s' request next := by
  have hsame : s.Leaves { s' with entries := s.entries, entryIds := s.entryIds } request next :=
    of_instances htimesheets hexpenses rfl rfl (hinstances ▸ extends_refl _)
  exact ⟨hentries, hsame.opened, hsame.editable, hsame.instances, howners, hids, hnumbered⟩

/-- Another request has learnt what it has, unless this one edits what that one submits. -/
theorem told (h : s.Leaves s' request next) {other : Request} {phase : Phase}
    (htold : s.Told other phase) (hother : phase.underway = true →
      ∀ d, other.submits = some d → request.edits ≠ some d) : s'.Told other phase := by
  refine htold.mono h.entryIds h.owners h.instances fun hunderway id hsubmits => ?_
  rw [h.entries id (hother hunderway _ hsubmits)]

/-- Only one timesheet changes. -/
theorem of_timesheet {timesheet : Timesheet} {applied : List (Doc × Change)}
    (hopened : s.Open (.timesheet timesheet.id) → timesheet.submitted ≠ none →
      request.submits = some (.timesheet timesheet.id) ∧ next = .done)
    (heditable : timesheet.status.editable = true → timesheet.submitted = none) :
    s.Leaves { s with timesheets := s.timesheets.set timesheet, applied } request next := by
  refine ⟨fun _ _ => rfl, fun d hd => ?_, fun h d hd => ?_, extends_refl _,
    fun id _ e he => ⟨e, he, rfl⟩, le_rfl, id⟩
  · cases d with
    | expense id => exact .inl hd
    | timesheet id =>
      simp only [Open, KeyedMap.get?_set]
      split_ifs with hid
      · subst hid
        by_cases hsubmitted : timesheet.submitted = none
        · exact .inl (by simpa using hsubmitted)
        · exact .inr (hopened hd hsubmitted)
      · exact .inl hd
  · cases d with
    | expense id => exact h (.expense id) hd
    | timesheet id =>
      simp only [Open, Editable, KeyedMap.get?_set] at hd ⊢
      split_ifs at hd ⊢ with hid
      · simpa using heditable (by simpa using hd)
      · exact h (.timesheet id) hd

/-- Only one expense report changes. -/
theorem of_expense {report : ExpenseReport} {applied : List (Doc × Change)}
    (hopened : s.Open (.expense report.id) → report.submitted ≠ none →
      request.submits = some (.expense report.id) ∧ next = .done)
    (heditable : (∀ d, s.Editable d → s.Open d) → report.status.editable = true →
      report.submitted = none) :
    s.Leaves { s with expenses := s.expenses.set report, applied } request next := by
  refine ⟨fun _ _ => rfl, fun d hd => ?_, fun h d hd => ?_, extends_refl _,
    fun id _ e he => ⟨e, he, rfl⟩, le_rfl, id⟩
  · cases d with
    | timesheet id => exact .inl hd
    | expense id =>
      simp only [Open, KeyedMap.get?_set]
      split_ifs with hid
      · subst hid
        by_cases hsubmitted : report.submitted = none
        · exact .inl (by simpa using hsubmitted)
        · exact .inr (hopened hd hsubmitted)
      · exact .inl hd
  · cases d with
    | timesheet id => exact h (.timesheet id) hd
    | expense id =>
      simp only [Open, Editable, KeyedMap.get?_set] at hd ⊢
      split_ifs at hd ⊢ with hid
      · simpa using heditable h (by simpa using hd)
      · exact h (.expense id) hd

theorem write (hids : s.Numbered)
    (htold : s.Told request .writing) : s.Leaves (s.write request) request next := by
  cases request with
  | createEntry employeeId timesheetId data =>
    refine of_entries rfl rfl rfl (fun id hne => ?_) (fun id hlt e' he' => ⟨e', ?_, rfl⟩)
      (Nat.le_succ _) fun hnumbered e he => ?_
    · have hother : timesheetId ≠ id := fun heq => hne (heq ▸ rfl)
      refine congrArg KeyedMap.values (KeyedMap.share_set_of_ne hother fun x hx hkey => ?_)
      exact absurd hkey (hids x hx).ne
    · have hnew : (s.entries.set ⟨s.entryIds, timesheetId, data⟩).get? id = some e' := he'
      have hne : TimesheetEntry.id ⟨s.entryIds, timesheetId, data⟩ ≠ id := hlt.ne'
      rwa [KeyedMap.get?_set_of_ne _ hne] at hnew
    · rcases KeyedMap.mem_set.1 he with rfl | ⟨he, -⟩
      · exact Nat.lt_succ_self _
      · exact (hnumbered e he).trans (Nat.lt_succ_self _)
  | updateEntry employeeId timesheetId entryId hours projectCode description =>
    cases hget : s.entries.get? entryId with
    | none =>
      simp only [Office.write, hget]
      exact refl
    | some e =>
      simp only [Office.write, hget]
      have howner : e.timesheetId = timesheetId := htold.2 e hget
      refine of_entries rfl rfl rfl (fun id hne => ?_) (fun id _ e' he' => ?_) le_rfl
        fun hnumbered x hx => ?_
      · have hother : e.timesheetId ≠ id := fun heq => hne (by rw [← heq, howner]; rfl)
        refine congrArg KeyedMap.values (KeyedMap.share_set_of_ne hother fun x hx hkey => ?_)
        rwa [KeyedMap.eq_of_key_eq hx (KeyedMap.mem_of_get? hget) hkey]
      · simp only [KeyedMap.get?_set, KeyedMap.key_of_get? hget] at he'
        split_ifs at he' with hid
        · obtain rfl := Option.some.inj he'
          exact ⟨e, hid ▸ hget, rfl⟩
        · exact ⟨e', he', rfl⟩
      · rcases KeyedMap.mem_set.1 hx with rfl | ⟨hx, -⟩
        · exact hnumbered e (KeyedMap.mem_of_get? hget)
        · exact hnumbered x hx
  | deleteEntry employeeId timesheetId entryId =>
    refine of_entries rfl rfl rfl (fun id hne => ?_) (fun id _ e' he' => ?_) le_rfl
      fun hnumbered e he => hnumbered e (KeyedMap.mem_erase.1 he).1
    · have hother : timesheetId ≠ id := fun heq => hne (heq ▸ rfl)
      refine congrArg KeyedMap.values (KeyedMap.share_erase_of_ne (fun x hx hkey => ?_) hother)
      exact htold.2 x (hkey ▸ KeyedMap.get?_of_mem hx)
    · have hleft : (s.entries.erase entryId).get? id = some e' := he'
      by_cases hid : entryId = id
      · rw [hid, KeyedMap.get?_erase_self] at hleft
        cases hleft
      · rw [KeyedMap.get?_erase_of_ne _ hid] at hleft
        exact ⟨e', hleft, rfl⟩
  | uploadReceipt employeeId expenseId receiptPath =>
    cases hget : s.expenses.get? expenseId with
    | none =>
      simp only [Office.write, hget]
      exact refl
    | some report =>
      simp only [Office.write, hget]
      have hid : report.id = expenseId := KeyedMap.key_of_get? hget
      refine of_expense (fun hopen hsubmitted => ?_) (fun h heditable => ?_)
      · exact absurd (hopen report (hid ▸ hget)) hsubmitted
      · exact h (.expense expenseId) ((editable_expense hget).2 heditable) report hget
  | submit => exact refl
  | patch => exact refl
  | complete => exact refl

theorem linkTimesheet {employeeId : String} {timesheetId : Nat} (instanceId : Nat) :
    s.Leaves (s.linkTimesheet timesheetId instanceId) (.submit employeeId timesheetId) .done := by
  unfold Office.linkTimesheet
  cases hget : s.timesheets.get? timesheetId with
  | none => exact refl
  | some timesheet =>
    have hid : timesheet.id = timesheetId := KeyedMap.key_of_get? hget
    exact of_timesheet (fun _ _ => ⟨congrArg (some ∘ Doc.timesheet) hid.symm, rfl⟩) nofun

theorem patch {employeeId : String} {expenseId : Nat} {lineItems : Option (List LineItem)}
    {submitted : Bool} {instanceId : Option Nat} (hsubmits : instanceId ≠ none → submitted = true) :
    s.Leaves (s.patch expenseId lineItems instanceId).1
      (.patch employeeId expenseId lineItems submitted)
      (s.patch expenseId lineItems instanceId).2 := by
  unfold Office.patch
  cases hget : s.expenses.get? expenseId with
  | none => exact refl
  | some found =>
    obtain rfl : found.id = expenseId := KeyedMap.key_of_get? hget
    have hedited : ∀ {next : Phase}, s.Leaves { s with
        expenses := s.expenses.set { found with lineItems := lineItems.getD found.lineItems } }
          (.patch employeeId found.id lineItems submitted) next := by
      intro next
      refine of_expense (fun hopen hsubmitted => ?_) (fun h heditable => ?_)
      · exact absurd (hopen found hget) hsubmitted
      · exact h (.expense found.id) ((editable_expense hget).2 heditable) found hget
    cases instanceId with
    | none => exact hedited
    | some instanceId =>
      obtain rfl : submitted = true := hsubmits nofun
      dsimp only
      split_ifs
      · exact of_expense (fun _ _ => ⟨rfl, rfl⟩) nofun
      · exact hedited

theorem cancel (instanceId : Nat) : s.Leaves (s.cancel instanceId) request next := by
  unfold Office.cancel
  cases hget : s.instances[instanceId]? with
  | none => exact refl
  | some inst =>
    dsimp only
    cases inst.position with
    | waiting _ => exact of_instances rfl rfl rfl rfl (extends_set hget _)
    | ended _ _ => exact refl
    | cancelled => exact refl

theorem complete (instanceId : Nat) (review : Review) (decision : Decision) :
    s.Leaves (s.complete instanceId review decision).1 request next := by
  unfold Office.complete
  cases hget : s.instances[instanceId]? with
  | none => exact refl
  | some inst =>
    dsimp only
    split_ifs
    · exact of_instances rfl rfl rfl rfl (extends_set hget _)
    · exact refl

theorem sync (instanceId : Nat) (review : Review) (decision : Decision) (document : Doc) :
    s.Leaves (s.sync instanceId review decision document) request next := by
  cases document with
  | timesheet id =>
    cases hget : s.timesheets.get? id with
    | none =>
      simp only [Office.sync, hget]
      exact refl
    | some timesheet =>
      simp only [Office.sync, hget]
      have hid : timesheet.id = id := KeyedMap.key_of_get? hget
      refine of_timesheet (fun hopen hsubmitted => absurd ?_ hsubmitted) fun heditable => ?_
      · dsimp only at hopen ⊢
        rw [hopen timesheet (hid ▸ hget), ite_self]
      · -- of the statuses that are written, one is editable
        have hrevision : review.timesheetStatus decision = .revision_requested := by
          cases review <;> cases decision <;> simp_all [Review.timesheetStatus,
            TimesheetStatus.editable]
        exact if_pos hrevision
  | expense id =>
    cases hget : s.expenses.get? id with
    | none =>
      simp only [Office.sync, hget]
      exact refl
    | some report =>
      simp only [Office.sync, hget]
      have hid : report.id = id := KeyedMap.key_of_get? hget
      by_cases hprevious : report.status = review.expectedPreviousStatus
      · rw [if_pos hprevious]
        refine of_expense (fun hopen hsubmitted => absurd ?_ hsubmitted) fun _ heditable => ?_
        · dsimp only at hopen ⊢
          rw [hopen report (hid ▸ hget), ite_self]
        · have hrejected : review.expenseStatus decision = .REJECTED := by
            cases review <;> cases decision <;> simp_all [Review.expenseStatus,
              ExpenseReportStatus.editable]
          exact if_pos hrejected
      · rw [if_neg hprevious]
        exact refl

theorem perform {phase : Phase} (hids : s.Numbered)
    (htold : s.Told request phase) :
    s.Leaves (s.perform request phase).1 request (s.perform request phase).2 := by
  unfold Office.perform
  split
  · exact refl
  · split <;> exact refl
  · split <;> exact refl
  · exact refl
  · exact write hids htold
  · exact of_instances rfl rfl rfl rfl (extends_append _ _)
  · exact of_instances rfl rfl rfl rfl (extends_append _ _)
  · exact linkTimesheet _
  · rename_i instanceId
    refine patch fun hsome => ?_
    cases instanceId with
    | none => exact absurd rfl hsome
    | some _ => exact htold
  · exact cancel _
  · exact complete _ _ _
  · exact refl
  · exact sync _ _ _ _
  · exact refl

end Office.Leaves

/-- The calls that may come after the first query. -/
def Phase.second : Phase → Prop
  | .findingEntry | .readingManager | .writing | .starting _ | .linking none | .completing => True
  | .reading | .linking (some _) | .cancelling _ | .finding | .syncing _ | .done => False

/-- What the checks after the first query have found. -/
structure Office.Checked (s : Office) (request : Request) (next : Phase) : Prop where
  has : ∀ d, request.document = some d → s.Has d
  editable : ∀ d, request.document = some d → s.Editable d
  told : s.Told request next
  second : next.second

theorem checked_timesheet {request : Request} {timesheetId : Nat} {timesheet : Timesheet}
    (hget : s.timesheets.get? timesheetId = some timesheet)
    (heditable : timesheet.status.editable = true)
    (hdocument : request.document = some (.timesheet timesheetId)) {next : Phase}
    (htold : s.Told request next) (hsecond : next.second) : s.Checked request next := by
  refine ⟨fun d hd => ?_, fun d hd => ?_, htold, hsecond⟩
  · obtain rfl := Option.some.inj (hdocument.symm.trans hd)
    simp [Office.Has, hget]
  · obtain rfl := Option.some.inj (hdocument.symm.trans hd)
    exact (editable_timesheet hget).2 heditable

theorem checked_expense {request : Request} {expenseId : Nat} {report : ExpenseReport}
    (hget : s.expenses.get? expenseId = some report) (heditable : report.status.editable = true)
    (hdocument : request.document = some (.expense expenseId)) {next : Phase}
    (htold : s.Told request next) (hsecond : next.second) : s.Checked request next := by
  refine ⟨fun d hd => ?_, fun d hd => ?_, htold, hsecond⟩
  · obtain rfl := Option.some.inj (hdocument.symm.trans hd)
    simp [Office.Has, hget]
  · obtain rfl := Option.some.inj (hdocument.symm.trans hd)
    exact (editable_expense hget).2 heditable

theorem read_spec (request : Request) :
    s.read request = .done ∨ s.Checked request (s.read request) := by
  unfold Office.read
  split
  · split
    · exact .inl rfl
    · rename_i hget
      split_ifs with hcheck
      · exact .inr (checked_timesheet hget hcheck.2 rfl trivial trivial)
      · exact .inl rfl
  · split
    · exact .inl rfl
    · rename_i hget
      split_ifs with hcheck
      · exact .inr (checked_timesheet hget hcheck.2 rfl trivial trivial)
      · exact .inl rfl
  · split
    · exact .inl rfl
    · rename_i hget
      split_ifs with hcheck
      · exact .inr (checked_timesheet hget hcheck.2 rfl trivial trivial)
      · exact .inl rfl
  · split
    · exact .inl rfl
    · rename_i hget
      split_ifs with hcheck
      · exact .inr (checked_timesheet hget hcheck.2.1 rfl rfl trivial)
      · exact .inl rfl
  · split
    · exact .inl rfl
    · rename_i hget
      split_ifs with hcheck hsubmitted
      · exact .inr (checked_expense hget hcheck.2.2 rfl hsubmitted trivial)
      · exact .inr (checked_expense hget hcheck.2.2 rfl trivial trivial)
      · exact .inl rfl
  · split
    · exact .inl rfl
    · rename_i hget
      split_ifs with hcheck
      · exact .inr (checked_expense hget hcheck.2 rfl trivial trivial)
      · exact .inl rfl
  · split
    · exact .inl rfl
    · split
      · exact .inl rfl
      · exact .inr ⟨nofun, nofun, trivial, trivial⟩

/-- What the request has learnt from this call. -/
theorem told_perform (hids : s.Numbered) {request : Request}
    {phase : Phase} (htold : s.Told request phase) :
    (s.perform request phase).1.Told request (s.perform request phase).2 := by
  have hnew : ∀ (document : Doc) (total : ℚ),
      (s.start document total).instances[s.instances.length]? =
        some { document, totalHours := total } := fun _ _ => List.getElem?_concat_length
  have hfound : ∀ {timesheetId entryId : Nat} {entry : TimesheetEntry},
      s.entries.get? entryId = some entry → entry.timesheetId = timesheetId →
        entryId < s.entryIds ∧ ∀ e ∈ s.entries.get? entryId, e.timesheetId = timesheetId := by
    intro timesheetId entryId entry hget howner
    refine ⟨KeyedMap.key_of_get? hget ▸ hids _ (KeyedMap.mem_of_get? hget), fun e' he' => ?_⟩
    obtain rfl := Option.some.inj (hget.symm.trans he')
    exact howner
  unfold Office.perform
  split
  · rcases read_spec _ with hdone | hchecked
    · rw [hdone]
      exact told_done _
    · exact hchecked.told
  · split
    · exact told_done _
    · rename_i hget
      dsimp only
      split_ifs with howner
      · exact hfound hget howner
      · exact told_done _
  · split
    · exact told_done _
    · rename_i hget
      dsimp only
      split_ifs with howner
      · exact hfound hget howner
      · exact told_done _
  · dsimp only
    split_ifs
    · exact htold
    · exact told_done _
  · exact told_done _
  · exact ⟨_, hnew _ _, htold⟩
  · exact htold
  · exact told_done _
  · unfold Office.patch
    split
    · exact told_done _
    · dsimp only
      split
      · exact told_done _
      · split_ifs
        · exact told_done _
        · trivial
  · exact told_done _
  · unfold Office.complete
    split
    · exact told_done _
    · split_ifs
      · trivial
      · exact told_done _
  · unfold Office.Told
    split <;> trivial
  · exact told_done _
  · exact told_done _

/-! ## What is submitted -/

namespace AsSubmitted

/-- No document changes, and the request edits only one that is not submitted. -/
theorem frame (h : AsSubmitted s) {request : Request} {next : Phase}
    (hleaves : s.Leaves s' request next) (htimesheets : s'.timesheets = s.timesheets)
    (hexpenses : s'.expenses = s.expenses) (hopen : ∀ d, request.edits = some d → s.Open d) :
    AsSubmitted s' := by
  refine ⟨fun timesheet hmem => ?_, fun report hmem => h.expenses report (hexpenses ▸ hmem)⟩
  rw [htimesheets] at hmem
  have hsettled := h.timesheets timesheet hmem
  have hentries : timesheet.submitted ≠ none →
      s'.entriesOf timesheet.id = s.entriesOf timesheet.id := by
    intro hsubmitted
    refine hleaves.entries _ fun hedits => hsubmitted ?_
    exact hopen _ hedits timesheet (KeyedMap.get?_of_mem hmem)
  refine ⟨fun submitted hsubmitted => ?_, fun hsubmitted => ?_, hsettled.pending⟩
  · rw [hentries (by simp [hsubmitted])]
    exact hsettled.entries submitted hsubmitted
  · obtain ⟨i, inst, hlink, hinst, hhours⟩ := hsettled.hours hsubmitted
    obtain ⟨inst', hinst', hsame, -⟩ := hleaves.instances i inst hinst
    refine ⟨i, inst', hlink, hinst', ?_⟩
    rw [hentries hsubmitted, hsame]
    exact hhours

/-- Only the instances change. -/
theorem instances (h : AsSubmitted s) (htimesheets : s'.timesheets = s.timesheets)
    (hexpenses : s'.expenses = s.expenses) (hentries : s'.entries = s.entries)
    (hids : s'.entryIds = s.entryIds) (hinstances : Extends s.instances s'.instances) :
    AsSubmitted s' := by
  have hleaves : s.Leaves s' (.complete 0 .manager .approved) .done :=
    .of_instances htimesheets hexpenses hentries hids hinstances
  exact h.frame hleaves htimesheets hexpenses nofun

/-- Only one timesheet changes. -/
theorem setTimesheet (h : AsSubmitted s) {timesheet : Timesheet} (htimesheet : timesheet.Settled s)
    (applied : List (Doc × Change)) :
    AsSubmitted { s with timesheets := s.timesheets.set timesheet, applied } := by
  refine ⟨fun other hmem => ?_, h.expenses⟩
  have hsettled : other.Settled s := by
    rcases KeyedMap.mem_set.1 hmem with rfl | ⟨hmem, -⟩
    · exact htimesheet
    · exact h.timesheets other hmem
  exact ⟨hsettled.entries, hsettled.hours, hsettled.pending⟩

/-- Only one expense report changes. -/
theorem setExpense (h : AsSubmitted s) {report : ExpenseReport} (hreport : report.Settled)
    (applied : List (Doc × Change)) :
    AsSubmitted { s with expenses := s.expenses.set report, applied } := by
  refine ⟨fun timesheet hmem => ?_, fun other hmem => ?_⟩
  · have hsettled := h.timesheets timesheet hmem
    exact ⟨hsettled.entries, hsettled.hours, hsettled.pending⟩
  · rcases KeyedMap.mem_set.1 hmem with rfl | ⟨hmem, -⟩
    · exact hreport
    · exact h.expenses other hmem

theorem write (h : AsSubmitted s) (hids : s.Numbered) {request : Request}
    (htold : s.Told request .writing) (hopen : ∀ d, request.edits = some d → s.Open d) :
    AsSubmitted (s.write request) := by
  have hleaves : s.Leaves (s.write request) request .done := .write hids htold
  cases request with
  | createEntry => exact h.frame hleaves rfl rfl hopen
  | updateEntry employeeId timesheetId entryId hours projectCode description =>
    cases hget : s.entries.get? entryId with
    | none => simpa only [Office.write, hget] using h
    | some e =>
      simp only [Office.write, hget] at hleaves ⊢
      exact h.frame hleaves rfl rfl hopen
  | deleteEntry => exact h.frame hleaves rfl rfl hopen
  | uploadReceipt employeeId expenseId receiptPath =>
    cases hget : s.expenses.get? expenseId with
    | none => simpa only [Office.write, hget] using h
    | some report =>
      simp only [Office.write, hget]
      have hnone : report.submitted = none := hopen (.expense expenseId) rfl report hget
      have hsettled := h.expenses report (KeyedMap.mem_of_get? hget)
      have hreport : ExpenseReport.Settled { report with receiptPath := some receiptPath } := by
        refine ⟨fun submitted hsubmitted => ?_, hsettled.pending⟩
        rw [hnone] at hsubmitted
        cases hsubmitted
      exact h.setExpense hreport s.applied
  | submit => exact h
  | patch => exact h
  | complete => exact h

theorem linkTimesheet (h : AsSubmitted s) {timesheetId instanceId : Nat} {inst : Instance}
    (hinst : s.instances[instanceId]? = some inst)
    (hhours : inst.totalHours = totalHours (s.entriesOf timesheetId)) :
    AsSubmitted (s.linkTimesheet timesheetId instanceId) := by
  unfold Office.linkTimesheet
  cases hget : s.timesheets.get? timesheetId with
  | none => exact h
  | some timesheet =>
    have hid : timesheet.id = timesheetId := KeyedMap.key_of_get? hget
    refine h.setTimesheet ⟨fun submitted hsubmitted => ?_,
      fun _ => ⟨instanceId, inst, rfl, hinst, ?_⟩, fun _ => Option.some_ne_none _⟩ _
    · cases hsubmitted
      rw [← hid]
    · rw [hhours, ← hid]

theorem patch (h : AsSubmitted s) {expenseId : Nat} {lineItems : Option (List LineItem)}
    {instanceId : Option Nat} (hopen : lineItems = none ∨ s.Open (.expense expenseId)) :
    AsSubmitted (s.patch expenseId lineItems instanceId).1 := by
  unfold Office.patch
  cases hget : s.expenses.get? expenseId with
  | none => exact h
  | some found =>
    have hfound := h.expenses found (KeyedMap.mem_of_get? hget)
    have hreport : ExpenseReport.Settled
        { found with lineItems := lineItems.getD found.lineItems } := by
      refine ⟨fun submitted hsubmitted => ?_, hfound.pending⟩
      rcases hopen with rfl | hopen
      · exact hfound.content submitted hsubmitted
      · rw [hopen found hget] at hsubmitted
        cases hsubmitted
    cases instanceId with
    | none => exact h.setExpense hreport s.applied
    | some instanceId =>
      dsimp only
      split_ifs
      · refine h.setExpense ⟨fun submitted hsubmitted => ?_, fun _ => Option.some_ne_none _⟩ _
        cases hsubmitted
        rfl
      · exact h.setExpense hreport s.applied

theorem sync (h : AsSubmitted s) (instanceId : Nat) (review : Review) (decision : Decision)
    (document : Doc) : AsSubmitted (s.sync instanceId review decision document) := by
  cases document with
  | timesheet id =>
    cases hget : s.timesheets.get? id with
    | none => simpa only [Office.sync, hget] using h
    | some timesheet =>
      simp only [Office.sync, hget]
      have hsettled := h.timesheets timesheet (KeyedMap.mem_of_get? hget)
      have hstatus : review.timesheetStatus decision ≠ .pending_manager_review := by
        cases review <;> cases decision <;> decide
      refine h.setTimesheet ⟨fun submitted hsubmitted => ?_, fun hsubmitted => ?_,
        fun hpending => absurd hpending hstatus⟩ _
      · dsimp only at hsubmitted
        split_ifs at hsubmitted
        exact hsettled.entries submitted hsubmitted
      · dsimp only at hsubmitted
        split_ifs at hsubmitted
        · exact absurd rfl hsubmitted
        · exact hsettled.hours hsubmitted
  | expense id =>
    cases hget : s.expenses.get? id with
    | none => simpa only [Office.sync, hget] using h
    | some report =>
      simp only [Office.sync, hget]
      have hsettled := h.expenses report (KeyedMap.mem_of_get? hget)
      have hstatus : review.expenseStatus decision ≠ .SUBMITTED := by
        cases review <;> cases decision <;> decide
      by_cases hprevious : report.status = review.expectedPreviousStatus
      · rw [if_pos hprevious]
        refine h.setExpense ⟨fun submitted hsubmitted => ?_,
          fun hpending => absurd hpending hstatus⟩ _
        dsimp only at hsubmitted
        split_ifs at hsubmitted
        exact hsettled.content submitted hsubmitted
      · rw [if_neg hprevious]
        exact h

theorem cancel (h : AsSubmitted s) (instanceId : Nat) : AsSubmitted (s.cancel instanceId) := by
  unfold Office.cancel
  split
  · exact h
  · rename_i hinst
    split
    · exact h.instances rfl rfl rfl rfl (extends_set hinst _)
    · exact h
    · exact h

theorem complete (h : AsSubmitted s) (instanceId : Nat) (review : Review) (decision : Decision) :
    AsSubmitted (s.complete instanceId review decision).1 := by
  unfold Office.complete
  split
  · exact h
  · rename_i hinst
    split_ifs
    · exact h.instances rfl rfl rfl rfl (extends_set hinst _)
    · exact h

theorem perform (h : AsSubmitted s) (hids : s.Numbered) {request : Request} {phase : Phase}
    (htold : s.Told request phase) (hopen : ∀ d, request.edits = some d → s.Open d) :
    AsSubmitted (s.perform request phase).1 := by
  unfold Office.perform
  split
  · exact h
  · split <;> exact h
  · split <;> exact h
  · exact h
  · exact h.write hids htold hopen
  · exact h.instances rfl rfl rfl rfl (extends_append _ _)
  · exact h.instances rfl rfl rfl rfl (extends_append _ _)
  · obtain ⟨inst, hinst, hhours⟩ := htold
    exact h.linkTimesheet hinst hhours
  · rename_i lineItems _ _
    refine h.patch ?_
    cases lineItems with
    | none => exact .inl rfl
    | some _ => exact .inr (hopen _ rfl)
  · exact h.cancel _
  · exact h.complete _ _ _
  · exact h
  · exact h.sync _ _ _ _
  · exact h

end AsSubmitted

/-! ## Runs -/

/-- Both are under way, and one of them edits what the other one submits. -/
def Overlap (r other : Request × Phase) : Prop :=
  r.2.underway = true ∧ other.2.underway = true ∧ r.1.Clashes other.1

theorem Overlap.symm (r other : Request × Phase) (h : Overlap r other) : Overlap other r :=
  ⟨h.2.1, h.1, h.2.2.symm⟩

theorem not_overlap_of_not_underway {r : Request × Phase} (h : r.2.underway = false)
    (other : Request × Phase) : ¬ Overlap r other := by
  rintro ⟨hunderway, -⟩
  rw [h] at hunderway
  cases hunderway

structure System.Kept (s : System) : Prop where
  office : AsSubmitted s.office
  numbered : s.office.Numbered
  opened : ∀ d, s.office.Editable d → s.office.Open d
  /-- What is being edited is not submitted. -/
  edits : ∀ r ∈ s.requests, r.2.underway = true → ∀ d, r.1.edits = some d → s.office.Open d
  told : ∀ r ∈ s.requests, s.office.Told r.1 r.2
  apart : Sections.Apart Overlap s.requests

namespace System.Kept

variable {s s' : System} {k : Nat} {request : Request} {phase : Phase}

/-- Only where the request is changes. -/
theorem setPhase (h : s.Kept) {next : Phase} (htold : s.office.Told request next)
    (hedits : next.underway = true → ∀ d, request.edits = some d → s.office.Open d)
    (hfree : Sections.Free Overlap s.requests k (request, next)) :
    Kept { s with requests := s.requests.set k (request, next) } := by
  refine ⟨h.office, h.numbered, h.opened, fun r hr => ?_, fun r hr => ?_,
    h.apart.set Overlap.symm hfree⟩
  · rcases List.mem_or_eq_of_mem_set hr with hr | rfl
    · exact h.edits r hr
    · exact hedits
  · rcases List.mem_or_eq_of_mem_set hr with hr | rfl
    · exact h.told r hr
    · exact htold

theorem setDone (h : s.Kept) :
    Kept { s with requests := s.requests.set k (request, .done) } :=
  h.setPhase (told_done request) nofun (Sections.free_of_not (not_overlap_of_not_underway rfl))

/-- The first query. -/
theorem read (h : s.Kept)
    (hfree : ∀ other ∈ s.requests.eraseIdx k, other.2.underway = true →
      ¬ request.Clashes other.1) :
    Kept { s with requests := s.requests.set k (request, s.office.read request) } := by
  rcases read_spec request with hdone | hchecked
  · rw [hdone]
    exact h.setDone
  · refine h.setPhase hchecked.told (fun _ d hd => h.opened d ?_) fun other hother hoverlap => ?_
    · exact hchecked.editable d (Request.document_of_edits hd)
    · exact hfree other hother hoverlap.2.1 hoverlap.2.2

/-- A later call; `next` is where the request goes on, if it does. -/
theorem call (h : s.Kept) (hk : s.requests[k]? = some (request, phase))
    (hunderway : phase.underway = true) {next : Phase}
    (hnext : next = (s.office.perform request phase).2 ∨ next = .done) :
    Kept ⟨(s.office.perform request phase).1, s.requests.set k (request, next)⟩ := by
  have hmem : (request, phase) ∈ s.requests := List.mem_of_getElem? hk
  have htold := h.told _ hmem
  have hleaves : s.office.Leaves _ request _ := .perform h.numbered htold
  have hedits := h.edits _ hmem hunderway
  have hapart : ∀ {j : Nat} {r : Request × Phase}, j ≠ k → s.requests[j]? = some r →
      r.2.underway = true → ¬ request.Clashes r.1 :=
    fun hj hr hr' hclash => (h.apart.free hk).not_clash hr hj ⟨hunderway, hr', hclash⟩
  refine ⟨h.office.perform h.numbered htold hedits, hleaves.numbered h.numbered,
    hleaves.editable h.opened, fun r hr hr' d hd => ?_, fun r hr => ?_, ?_⟩
  · obtain ⟨j, hj⟩ := List.mem_iff_getElem?.1 hr
    rcases Indexed.getElem?_set hj with ⟨-, rfl⟩ | ⟨hjk, hj⟩
    · rcases hleaves.opened d (hedits d hd) with hopen | ⟨-, hdone⟩
      · exact hopen
      · -- a request that has submitted its document is over
        rcases hnext with rfl | rfl
        · dsimp only at hr'
          rw [hdone] at hr'
          cases hr'
        · cases hr'
    · rcases hleaves.opened d (h.edits r (List.mem_of_getElem? hj) hr' d hd) with hopen | ⟨hd', -⟩
      · exact hopen
      · exact absurd (.inr ⟨d, hd, hd'⟩) (hapart hjk hj hr')
  · obtain ⟨j, hj⟩ := List.mem_iff_getElem?.1 hr
    rcases Indexed.getElem?_set hj with ⟨-, rfl⟩ | ⟨hjk, hj⟩
    · rcases hnext with rfl | rfl
      · exact told_perform h.numbered htold
      · exact told_done request
    · refine hleaves.told (h.told r (List.mem_of_getElem? hj)) fun hr' d hd hd' => ?_
      exact hapart hjk hj hr' (.inl ⟨d, hd', hd⟩)
  · refine h.apart.set Overlap.symm ?_
    exact (h.apart.free hk).mono fun other hoverlap => ⟨hunderway, hoverlap.2⟩

theorem go (h : s.Kept) {outcome : Outcome} (hk : s.requests[k]? = some (request, phase))
    (hphase : phase ≠ .done)
    (hfree : phase = .reading → outcome = .ok → ∀ other ∈ s.requests.eraseIdx k,
      other.2.underway = true → ¬ request.Clashes other.1) :
    (s.go k request phase outcome).Kept := by
  by_cases hreading : phase = .reading
  · subst hreading
    have hsame : s.office.perform request .reading = (s.office, s.office.read request) := by
      cases request <;> rfl
    unfold System.go
    rw [hsame]
    cases outcome with
    | ok => exact h.read (hfree rfl rfl)
    | failed => exact h.setDone
    | lost => exact h.setDone
  · have hunderway := underway_of_ne hreading hphase
    unfold System.go
    cases outcome with
    | ok => exact h.call hk hunderway (.inl rfl)
    | failed => exact h.setDone
    | lost => exact h.call hk hunderway (.inr rfl)

/-- The sums of the entries that are submitted, or being submitted, stay the same. -/
theorem reorder (h : s.Kept) {entries : KeyedMap TimesheetEntry.id}
    (hperm : entries.values.Perm s.office.entries.values)
    (hexclusive : Exclusive s (.reorder entries)) :
    Kept { s with office := { s.office with entries } } := by
  have hentries : ∀ id, (Office.entriesOf { s.office with entries } id).Perm
      (s.office.entriesOf id) := fun id => hperm.filter _
  have htotal : ∀ id, (s.office.Open (.timesheet id) → ∃ r ∈ s.requests, r.2.underway = true ∧
      r.1.submits = some (.timesheet id)) →
      totalHours (Office.entriesOf { s.office with entries } id) =
        totalHours (s.office.entriesOf id) := by
    intro id hheld
    by_cases hsome : ∃ e ∈ entries.values, e.timesheetId = id
    · obtain ⟨e, he, rfl⟩ := hsome
      rcases hexclusive e he with (hsame | hquarters) | ⟨hopen, hnone⟩
      · rw [hsame]
      · exact hquarters.totalHours_perm (hentries _)
      · obtain ⟨r, hr, hunderway, hsubmits⟩ := hheld hopen
        exact absurd hsubmits (hnone r hr hunderway)
    · have hempty : Office.entriesOf { s.office with entries } id = [] :=
        List.filter_eq_nil_iff.2 fun e he => by simpa using fun hid => hsome ⟨e, he, hid⟩
      have hperm' := hentries id
      rw [hempty] at hperm' ⊢
      rw [hperm'.nil_eq]
  refine ⟨⟨fun timesheet hmem => ?_, h.office.expenses⟩, fun e he => h.numbered e (hperm.subset he),
    h.opened, h.edits, fun r hr => ?_, h.apart⟩
  · have hsettled := h.office.timesheets timesheet hmem
    refine ⟨fun submitted hsubmitted => ?_, fun hsubmitted => ?_, hsettled.pending⟩
    · exact (hentries timesheet.id).trans (hsettled.entries submitted hsubmitted)
    · rw [htotal timesheet.id fun hopen =>
        absurd (hopen timesheet (KeyedMap.get?_of_mem hmem)) hsubmitted]
      exact hsettled.hours hsubmitted
  · refine (h.told r hr).mono le_rfl (fun id _ e he => ⟨e, ?_, rfl⟩) (extends_refl _)
      fun hunderway id hsubmits => htotal id fun _ => ⟨r, hr, hunderway, hsubmits⟩
    obtain ⟨hmem, hid⟩ := KeyedMap.get?_eq_some_iff.1 he
    exact KeyedMap.get?_eq_some_iff.2 ⟨hperm.subset hmem, hid⟩

end System.Kept

theorem System.Kept.step {s s' : System} (h : s.Kept) {happening : Happening}
    (hexclusive : Exclusive s happening) (hstep : s.step happening = some s') : s'.Kept := by
  cases happening with
  | request request =>
    cases hstep
    have hnew : (request, Phase.reading).2.underway = false := rfl
    refine ⟨h.office, h.numbered, h.opened, fun r hr => ?_, fun r hr => ?_,
      h.apart.append Overlap.symm (not_overlap_of_not_underway hnew)⟩
    · rcases List.mem_append.1 hr with hr | hr
      · exact h.edits r hr
      · obtain rfl := List.mem_singleton.1 hr
        exact nofun
    · rcases List.mem_append.1 hr with hr | hr
      · exact h.told r hr
      · obtain rfl := List.mem_singleton.1 hr
        cases request <;> trivial
  | manage managed =>
    cases hstep
    have hleaves : s.office.Leaves { s.office with managed } (.complete 0 .manager .approved)
        .done := .of_instances rfl rfl rfl rfl (extends_refl _)
    exact ⟨h.office.frame hleaves rfl rfl nofun, h.numbered, h.opened, h.edits,
      fun r hr => hleaves.told (h.told r hr) nofun, h.apart⟩
  | reorder entries =>
    by_cases hperm : entries.values.Perm s.office.entries.values
    · rw [System.step, if_pos hperm] at hstep
      cases hstep
      exact h.reorder hperm hexclusive
    · rw [System.step, if_neg hperm] at hstep
      cases hstep
  | go k outcome =>
    unfold System.step at hstep
    cases hk : s.requests[k]? with
    | none => simp [hk] at hstep
    | some r =>
      obtain ⟨request, phase⟩ := r
      simp only [hk] at hstep
      split at hstep
      · cases hstep
      · cases hstep
      · rename_i hdone heq
        cases heq
        cases hstep
        exact h.go hk (hdone) (hexclusive _ hk)

/-- Documents of which none has been submitted yet. -/
structure Office.Fresh (s : Office) : Prop where
  timesheets : ∀ timesheet ∈ s.timesheets.values, timesheet.status = .draft ∧
    timesheet.workflowInstanceId = none ∧ timesheet.submitted = none
  expenses : ∀ report ∈ s.expenses.values, report.status = .DRAFT ∧
    report.workflowInstanceId = none ∧ report.submitted = none
  numbered : s.Numbered
  instances : s.instances = []
  committed : s.committed = []
  applied : s.applied = []

theorem Office.Fresh.kept {start : Office} (h : start.Fresh) :
    System.Kept { office := start } := by
  have hopen : ∀ d, start.Open d := by
    intro d
    cases d with
    | timesheet id => exact fun timesheet hget =>
        (h.timesheets timesheet (KeyedMap.mem_of_get? hget)).2.2
    | expense id => exact fun report hget =>
        (h.expenses report (KeyedMap.mem_of_get? hget)).2.2
  refine ⟨⟨fun timesheet hmem => ?_, fun report hmem => ?_⟩, h.numbered, fun d _ => hopen d, nofun,
    nofun, Sections.apart_nil⟩
  · obtain ⟨hstatus, -, hnone⟩ := h.timesheets timesheet hmem
    exact ⟨by simp [hnone], by simp [hnone], by simp [hstatus]⟩
  · obtain ⟨hstatus, -, hnone⟩ := h.expenses report hmem
    exact ⟨by simp [hnone], by simp [hstatus]⟩

/-- In every exclusive run of requests on documents that have not been submitted before. -/
theorem documents_as_submitted {start : Office} (hstart : start.Fresh) {s : System}
    (h : Machine.Reaches System.step Exclusive { office := start } s) : AsSubmitted s.office :=
  (h.keeps hstart.kept fun hkept hC hstep => hkept.step hC hstep).office

/-- An employee with a manager and a draft. -/
def drafted : Office where
  timesheets := .ofList [{ id := 1, employeeId := "e1" }]
  entries := .ofList [⟨0, 1, { date := "2024-05-06", hours := 800 }⟩]
  entryIds := 1
  managed := ["e1"]

theorem fresh_drafted : drafted.Fresh where
  timesheets := by decide +kernel
  expenses := by decide +kernel
  numbered := by
    unfold Office.Numbered
    decide +kernel
  instances := rfl
  committed := rfl
  applied := rfl

/-- A second entry is written before the timesheet is submitted, and the reviewers find the entries
in another order. -/
theorem documents_as_submitted_draft : ∃ s : System,
    (s.office.instances.map Instance.totalHours = [12] ∧
      s.office.timesheets.values.map Timesheet.status = [.pending_manager_review]) ∧
        AsSubmitted s.office := by
  have hrun : (Machine.runs System.step Exclusive
      [.request (.createEntry "e1" 1 { date := "2024-05-07", hours := 400 }), .go 0 .ok, .go 0 .ok,
        .request (.submit "e1" 1), .go 1 .ok, .go 1 .ok, .go 1 .ok,
        .reorder (.ofList [⟨1, 1, { date := "2024-05-07", hours := 400 }⟩,
          ⟨0, 1, { date := "2024-05-06", hours := 800 }⟩])] { office := drafted }).any (fun s =>
        s.office.instances.map Instance.totalHours = [12] ∧
          s.office.timesheets.values.map Timesheet.status = [.pending_manager_review]) = true := by
    decide +kernel
  obtain ⟨s, hruns, hs⟩ := (Option.any_eq_true ..).1 hrun
  exact ⟨s, of_decide_eq_true hs, documents_as_submitted fresh_drafted (.of_runs hruns)⟩

/-- An entry is written after the timesheet has been submitted. -/
theorem not_documents_as_submitted : ¬ ∀ (start : Office) (s : System), start.Fresh →
    Machine.Reaches System.step (fun _ _ => True) { office := start } s →
      AsSubmitted s.office := by
  intro h
  have hrun : (Machine.runs System.step (fun _ _ => True)
      [.request (.createEntry "e1" 1 { date := "2024-05-07", hours := 400 }), .go 0 .ok,
        .request (.submit "e1" 1), .go 1 .ok, .go 1 .ok, .go 1 .ok, .go 0 .ok]
        { office := drafted }).any (fun s =>
          s.office.timesheets.values.any fun timesheet =>
            timesheet.submitted = some [⟨0, 1, { date := "2024-05-06", hours := 800 }⟩] ∧
              (s.office.entriesOf timesheet.id).length = 2) = true := by
    decide +kernel
  obtain ⟨s, hruns, hs⟩ := (Option.any_eq_true ..).1 hrun
  obtain ⟨timesheet, hmem, htimesheet⟩ := List.any_eq_true.1 hs
  obtain ⟨hsubmitted, hlength⟩ := of_decide_eq_true htimesheet
  have hsettled := (h drafted s fresh_drafted (.of_runs hruns)).timesheets timesheet hmem
  rw [(hsettled.entries _ hsubmitted).length_eq] at hlength
  exact absurd hlength (by decide)

end NexusWorkflow.Documents
