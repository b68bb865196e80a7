import NexusWorkflow.Lib.Sections
import NexusWorkflow.Model.Organizations

/-!
# One decision about a status change

A change of the status that has been requested is applied when its task is completed with
`approved`, and only then, in every run in which the requests about the organization follow one
another, none breaks off between its two calls, and an expired request is not approved.  Each
request then finds the organization and the workflow as the last one has left them, and its checks
do the rest; while it is between two calls, the invariant (`Consistent`) says which gap it has left.
-/

namespace NexusWorkflow.Organizations

open Machine (Outcome)

variable {s s' : Office}

/-! ## What is promised -/

namespace Office

variable (s : Office)

abbrev Pending (i : Nat) : Prop := s.position i = some .waiting

abbrev Approved (i : Nat) : Prop := s.position i = some .approved

abbrev Linked (i : Nat) : Prop := s.organization.workflowInstanceId = some i

def requested (i : Nat) : Option OrganizationStatus :=
  s.instances[i]?.map (·.requestedStatus.status)

/-- The status of the organization after all that has been applied. -/
def statusAfter (initial : OrganizationStatus) : OrganizationStatus :=
  (s.applied.getLast?.bind s.requested).getD initial

end Office

/-- The request is past its checks and not over; the route for tasks has none but that of the
service, when the task is completed. -/
def inside : Request × Phase → Bool
  | (.complete .., .finding _) | (.complete .., .syncing _) => true
  | (.complete .., _) | (_, .reading) | (_, .done) => false
  | _ => true

/-- With this call the request may get past its checks. -/
def enters (outcome : Outcome) : Request × Phase → Prop
  | (.complete .., .completing _) => outcome ≠ .failed
  | (.complete .., _) => False
  | (_, .reading) => outcome = .ok
  | _ => False

/-- The request does not break off between its two calls. -/
def Office.Unbroken (s : Office) (outcome : Outcome) : Request × Phase → Prop
  -- more than fifty open tasks are not looked through
  | (_, .starting) => outcome ≠ .lost ∧ (outcome = .ok → s.openTasks.length < 50)
  | (_, .linking _) | (_, .cancelling _) | (_, .signalling _) => outcome ≠ .failed
  -- the record of an expired task is still open
  | (.decide decision, .deciding i _) => outcome ≠ .lost ∧
    (decision = .approved → outcome = .ok → s.position i ≠ some .timedOut)
  | (.complete _ decision, .completing _) => decision = .approved → outcome ≠ .lost
  | (.complete _ decision, .finding _) => decision = .approved → outcome = .ok
  | (.complete _ decision, .syncing _) => decision = .approved → outcome ≠ .failed
  | _ => True

instance (outcome : Outcome) (r : Request × Phase) : Decidable (enters outcome r) := by
  unfold enters
  split <;> infer_instance

instance (outcome : Outcome) (r : Request × Phase) : Decidable (s.Unbroken outcome r) := by
  unfold Office.Unbroken
  split <;> infer_instance

/-- A request gets past its checks only while no other one is past them. -/
def Orderly (s : System) : Happening → Prop
  | .go c outcome => ∀ r ∈ s.requests[c]?, s.office.Unbroken outcome r ∧
      (enters outcome r → ∀ other ∈ s.requests.eraseIdx c, inside other = false)
  -- what has just been approved does not expire before its task is completed
  | .timeout i => (.decide .approved, .signalling i) ∉ s.requests
  | .request _ | .openTask _ | .closeTask _ => True

instance decidableOrderly (s : System) : (h : Happening) → Decidable (Orderly s h)
  | .go c outcome => inferInstanceAs (Decidable (∀ r ∈ s.requests[c]?,
      s.office.Unbroken outcome r ∧
        (enters outcome r → ∀ other ∈ s.requests.eraseIdx c, inside other = false)))
  | .timeout i => inferInstanceAs (Decidable ((.decide .approved, .signalling i) ∉ s.requests))
  | .request _ | .openTask _ | .closeTask _ => isTrue trivial

/-! ## The invariant -/

/-- What the request in progress has still to do. -/
inductive Gap where
  | link (i : Nat)
  /-- The task of the applied change is to be completed. -/
  | approve (i : Nat)
  /-- The task of the request that was denied is to be completed. -/
  | deny (i : Nat)
  | apply (i : Nat)

def gap : Request × Phase → Option Gap
  | (.requestStatusChange .., .linking i) => some (.link i)
  | (.decide decision, .signalling i) =>
    some (if decision = .approved then .approve i else .deny i)
  | (.complete i decision, .finding _) | (.complete i decision, .syncing _) =>
    if decision = .approved then some (.apply i) else none
  | _ => none

structure Consistent (initial : OrganizationStatus) (s : Office) (gap : Option Gap) : Prop where
  one_running : ∀ i j, s.Pending i → s.Pending j → i = j
  owner : ∀ inst ∈ s.instances, inst.requestedBy = s.organization.ownerId
  status : s.organization.status = s.statusAfter initial
  once : s.applied.Nodup
  applied : ∀ i ∈ s.applied, s.Approved i ∨ gap = some (.approve i) ∧ s.Pending i
  approved : ∀ i, s.Approved i → i ∈ s.applied ∨ gap = some (.apply i)
  linked : ∀ i, s.Pending i → s.Linked i ∨ gap = some (.link i) ∨ gap = some (.approve i) ∨
    gap = some (.deny i)
  listed : ∀ i, s.Pending i → .awaitManagerDecision i ∈ s.listTasks
  /-- An open record is that of a task that is open, or has expired. -/
  records : ∀ i, .awaitManagerDecision i ∈ s.openTasks →
    s.Pending i ∨ s.position i = some .timedOut

/-- What a request relies on that is past its checks. -/
def Office.Knows (s : Office) : Request × Phase → Prop
  | (.requestStatusChange employeeId _ _, .starting) =>
    s.organization.workflowInstanceId = none ∧ employeeId = s.organization.ownerId
  | (.requestStatusChange .., .linking _) => s.organization.workflowInstanceId = none
  | (.cancelStatusChange _, .cancelling i) => s.Linked i
  | (.cancelStatusChange _, .clearing) | (.decide _, .expiring) => ∀ j, ¬ s.Pending j
  | (.decide _, .listing i) | (.decide _, .checking i) => s.Linked i
  | (.decide _, .fetching i) => s.Linked i ∧ (s.Pending i ∨ s.position i = some .timedOut)
  | (.decide _, .deciding i rs) => s.Linked i ∧
    (s.Pending i ∨ s.position i = some .timedOut) ∧ s.requested i = some rs.status
  | (.decide decision, .signalling i) => decision = .approved → i ∈ s.applied ∧ s.Pending i
  | (.complete i _, .completing rs) => s.requested i = some rs.status
  | (.complete i decision, .finding rs) | (.complete i decision, .syncing rs) =>
    if decision = .approved then
      s.Linked i ∧ s.Approved i ∧ i ∉ s.applied ∧ s.requested i = some rs.status
    else ∀ j, ¬ s.Pending j
  | _ => True

/-! ## What a call does -/

theorem mem_take_filter {α : Type} {l : List α} {n : Nat} {p : α → Bool} {x : α}
    (hx : x ∈ l.take n) (hp : p x = true) : x ∈ (l.filter p).take n := by
  have hlength : ((l.take n).filter p).length ≤ n :=
    Nat.le_trans (List.length_filter_le ..) (by rw [List.length_take]; omega)
  have hsplit : l.filter p = (l.take n).filter p ++ (l.drop n).filter p := by
    rw [← List.filter_append, List.take_append_drop]
  rw [hsplit, List.take_append, List.take_of_length_le hlength]
  exact List.mem_append_left _ (List.mem_filter.2 ⟨hx, hp⟩)

theorem position_moveTo (i j : Nat) (position : Position) :
    (s.moveTo i position).position j =
      if i = j then (s.position j).map (fun _ => position) else s.position j := by
  unfold Office.position Office.moveTo
  rw [List.getElem?_modify]
  by_cases hij : i = j
  · simp [hij, Function.comp_def]
  · simp [hij]

theorem position_moveTo_self {i : Nat} {position : Position} (hi : s.Pending i) :
    (s.moveTo i position).position i = some position := by
  rw [position_moveTo, if_pos rfl, hi]
  rfl

theorem position_moveTo_ne {i j : Nat} {position : Position} (hij : i ≠ j) :
    (s.moveTo i position).position j = s.position j := by
  rw [position_moveTo, if_neg hij]

@[simp] theorem requested_moveTo (i j : Nat) (position : Position) :
    (s.moveTo i position).requested j = s.requested j := by
  unfold Office.requested Office.moveTo
  rw [List.getElem?_modify]
  by_cases hij : i = j
  · simp [hij, Function.comp_def]
  · simp [hij]

theorem owner_moveTo {i : Nat} {position : Position} {inst : Instance}
    (hinst : inst ∈ (s.moveTo i position).instances) :
    ∃ old ∈ s.instances, inst.requestedBy = old.requestedBy := by
  obtain ⟨j, hj⟩ := List.mem_iff_getElem?.1 hinst
  unfold Office.moveTo at hj
  rw [List.getElem?_modify] at hj
  obtain ⟨old, hold, rfl⟩ := Option.map_eq_some_iff.1 hj
  refine ⟨old, List.mem_of_getElem? hold, ?_⟩
  split_ifs <;> rfl

theorem lt_of_position {i : Nat} {position : Position} (hi : s.position i = some position) :
    i < s.instances.length := by
  obtain ⟨inst, hget, -⟩ := Option.map_eq_some_iff.1 hi
  exact (List.getElem?_eq_some_iff.1 hget).1

variable {employeeId : String} {rs : RequestedStatus}

theorem position_start_of_lt {i : Nat} (hi : i < s.instances.length) :
    (s.start employeeId rs).position i = s.position i := by
  unfold Office.position Office.start
  rw [List.getElem?_append_left hi]

theorem requested_start_of_lt {i : Nat} (hi : i < s.instances.length) :
    (s.start employeeId rs).requested i = s.requested i := by
  unfold Office.requested Office.start
  rw [List.getElem?_append_left hi]

theorem position_start_self : (s.start employeeId rs).Pending s.instances.length := by
  simp [Office.Pending, Office.position, Office.start]

theorem position_start {i : Nat} {position : Position}
    (hi : (s.start employeeId rs).position i = some position) :
    s.position i = some position ∨ i = s.instances.length ∧ position = .waiting := by
  have hlt := lt_of_position hi
  by_cases hold : i < s.instances.length
  · rw [position_start_of_lt hold] at hi
    exact .inl hi
  · have hself : i = s.instances.length := by
      have hlength : (s.start employeeId rs).instances.length = s.instances.length + 1 := by
        simp [Office.start]
      omega
    subst hself
    rw [position_start_self] at hi
    exact .inr ⟨rfl, (Option.some.inj hi).symm⟩

variable {initial : OrganizationStatus} {g g' : Option Gap}

theorem ne_of_position {i : Nat} {position position' : Position}
    (h : s.position i = some position) (hne : position ≠ position') :
    s.position i ≠ some position' :=
  fun h' => hne (Option.some.inj (h.symm.trans h'))

namespace Consistent

/-- Nothing that has been applied is pending, but what is to be approved. -/
theorem not_applied (h : Consistent initial s g) {i : Nat} (hi : s.Pending i)
    (hg : g ≠ some (.approve i)) : i ∉ s.applied := by
  intro hmem
  rcases h.applied i hmem with happroved | ⟨hgap, -⟩
  · exact ne_of_position happroved (by decide) hi
  · exact hg hgap

/-- Outside of the gaps, only what is linked is pending. -/
theorem not_pending (h : Consistent initial s none) {i : Nat} (hi : ¬ s.Pending i)
    (hlinked : s.Linked i) (j : Nat) : ¬ s.Pending j := by
  intro hj
  have hlinked' : s.Linked j := (h.linked j hj).resolve_right (by simp)
  obtain rfl : i = j := Option.some.inj (hlinked.symm.trans hlinked')
  exact hi hj

theorem not_pending_of_unlinked (h : Consistent initial s none)
    (hunlinked : s.organization.workflowInstanceId = none) (j : Nat) : ¬ s.Pending j := by
  intro hj
  have hlinked : s.Linked j := (h.linked j hj).resolve_right (by simp)
  rw [Office.Linked, hunlinked] at hlinked
  cases hlinked

theorem start (h : Consistent initial s none)
    (hunlinked : s.organization.workflowInstanceId = none)
    (howner : employeeId = s.organization.ownerId) (hroom : s.openTasks.length < 50) :
    Consistent initial (s.start employeeId rs) (some (.link s.instances.length)) := by
  have hnone := h.not_pending_of_unlinked hunlinked
  have happlied : ∀ i ∈ s.applied, s.Approved i := fun i hi =>
    (h.applied i hi).resolve_right (by simp)
  have hnew : ∀ i, (s.start employeeId rs).Pending i → i = s.instances.length := fun i hi =>
    ((position_start hi).resolve_left (hnone i)).1
  have hkeeps : ∀ {i position}, s.position i = some position →
      (s.start employeeId rs).position i = some position := fun hi =>
    (position_start_of_lt (lt_of_position hi)).trans hi
  refine ⟨fun i j hi hj => (hnew i hi).trans (hnew j hj).symm, fun inst hinst => ?_, ?_, h.once,
    fun i hi => .inl (hkeeps (happlied i hi)), fun i hi => ?_,
    fun i hi => .inr (.inl (by rw [hnew i hi])), fun i hi => ?_, fun i hi => ?_⟩
  · rcases List.mem_append.1 hinst with hinst | hinst
    · exact h.owner inst hinst
    · obtain rfl := List.mem_singleton.1 hinst
      exact howner
  · refine h.status.trans ?_
    have hsame : (s.start employeeId rs).applied = s.applied := rfl
    unfold Office.statusAfter
    rw [hsame]
    cases hlast : s.applied.getLast? with
    | none => rfl
    | some i =>
      have hi := lt_of_position (happlied i (List.mem_of_getLast? hlast))
      rw [Option.bind_some, Option.bind_some, requested_start_of_lt hi]
  · rcases position_start hi with hi | ⟨-, hwaiting⟩
    · exact .inl ((h.approved i hi).resolve_right (by simp))
    · cases hwaiting
  · rw [hnew i hi]
    unfold Office.listTasks Office.start
    rw [List.take_of_length_le
      (by simp only [List.length_append, List.length_singleton]; omega)]
    simp
  · rcases List.mem_append.1 hi with hi | hi
    · exact (h.records i hi).imp hkeeps hkeeps
    · cases List.mem_singleton.1 hi
      exact .inl position_start_self

theorem link {i : Nat} (h : Consistent initial s (some (.link i)))
    (hunlinked : s.organization.workflowInstanceId = none) (reason : String) :
    Consistent initial (s.link reason i) none := by
  refine ⟨h.one_running, h.owner, h.status, h.once, fun j hj => ?_, fun j hj => ?_, fun j hj => ?_,
    h.listed, h.records⟩
  · exact .inl ((h.applied j hj).resolve_right (by simp))
  · exact .inl ((h.approved j hj).resolve_right (by simp))
  · rcases h.linked j hj with hlinked | hgap | hgap | hgap
    · rw [Office.Linked, hunlinked] at hlinked
      cases hlinked
    · cases hgap
      exact .inl rfl
    · cases hgap
    · cases hgap

/-- The link is taken away, maybe from a request that is to be denied. -/
theorem clear (h : Consistent initial s none)
    (hpending : ∀ i, s.Pending i → g = some (.deny i)) : Consistent initial s.clear g :=
  ⟨h.one_running, h.owner, h.status, h.once,
    fun i hi => .inl ((h.applied i hi).resolve_right (by simp)),
    fun i hi => .inl ((h.approved i hi).resolve_right (by simp)),
    fun i hi => .inr (.inr (.inr (hpending i hi))), h.listed, h.records⟩

/-- The status is changed, before the task is completed or after it. -/
theorem apply (h : Consistent initial s g) {i : Nat} (hnew : i ∉ s.applied)
    (hrequested : s.requested i = some rs.status) (happlied : ∀ j ∈ s.applied, s.Approved j)
    (hposition : s.Approved i ∨ g' = some (.approve i) ∧ s.Pending i)
    (happroved : ∀ j, s.Approved j → j ∈ s.applied ∨ j = i)
    (hpending : ∀ j, s.Pending j → g' = some (.approve j)) :
    Consistent initial (s.apply i rs) g' := by
  have hmem : ∀ j, j ∈ (s.apply i rs).applied ↔ j ∈ s.applied ∨ j = i := by simp [Office.apply]
  refine ⟨h.one_running, h.owner, ?_, ?_, fun j hj => ?_, fun j hj => ?_, fun j hj => ?_, h.listed,
    h.records⟩
  · have hlast : (s.apply i rs).statusAfter initial =
        ((s.apply i rs).requested i).getD initial := by
      simp [Office.statusAfter, Office.apply]
    have hsame : (s.apply i rs).requested i = s.requested i := rfl
    rw [hlast, hsame, hrequested]
    rfl
  · exact List.nodup_append.2 ⟨h.once, by simp, fun j hj k hk heq =>
      hnew (List.mem_singleton.1 hk ▸ heq ▸ hj)⟩
  · rcases (hmem j).1 hj with hj | rfl
    · exact .inl (happlied j hj)
    · exact hposition
  · exact .inl ((hmem j).2 (happroved j hj))
  · exact .inr (.inr (.inl (hpending j hj)))

/-- The pending instance goes on. -/
theorem moveTo (h : Consistent initial s g) {i : Nat} (hi : s.Pending i) {position : Position}
    (hposition : position ≠ .waiting) {openTasks : List Task}
    (happlied : ∀ j ∈ s.applied, (s.moveTo i position).Approved j)
    (happroved : position = .approved → i ∈ s.applied ∨ g' = some (.apply i))
    (hold : ∀ j, j ∈ s.applied ∨ g = some (.apply j) → j ∈ s.applied ∨ g' = some (.apply j))
    (hrecords : ∀ j, .awaitManagerDecision j ∈ openTasks →
      .awaitManagerDecision j ∈ s.openTasks ∧ (i = j → position = .timedOut)) :
    Consistent initial { s.moveTo i position with openTasks } g' ∧
      ∀ j, ¬ (s.moveTo i position).Pending j := by
  have hself : (s.moveTo i position).position i = some position := position_moveTo_self hi
  have hnone : ∀ j, ¬ (s.moveTo i position).Pending j := by
    intro j hj
    by_cases hij : i = j
    · subst hij
      exact ne_of_position hself hposition hj
    · exact hij (h.one_running i j hi ((position_moveTo_ne hij).symm.trans hj))
  refine ⟨⟨fun j _ hj _ => absurd hj (hnone j), fun inst hinst => ?_, ?_, h.once,
    fun j hj => .inl (happlied j hj), fun j hj => ?_, fun j hj => absurd hj (hnone j),
    fun j hj => absurd hj (hnone j), fun j hj => ?_⟩, hnone⟩
  · obtain ⟨old, hold, hsame⟩ := owner_moveTo hinst
    exact hsame.trans (h.owner old hold)
  · refine h.status.trans ?_
    have hsame : (s.moveTo i position).requested = s.requested :=
      funext fun j => requested_moveTo i j position
    have hsame' : Office.requested { s.moveTo i position with openTasks } = s.requested := hsame
    unfold Office.statusAfter
    rw [hsame']
    rfl
  · have hj' : (s.moveTo i position).Approved j := hj
    by_cases hij : i = j
    · subst hij
      exact happroved (Option.some.inj (hself.symm.trans hj'))
    · rw [Office.Approved, position_moveTo_ne hij] at hj'
      exact hold j (h.approved j hj')
  · obtain ⟨hopen, hexpired⟩ := hrecords j hj
    by_cases hij : i = j
    · subst hij
      exact .inr (hself.trans (congrArg some (hexpired rfl)))
    · have hsame : (s.moveTo i position).position j = s.position j := position_moveTo_ne hij
      exact (h.records j hopen).imp hsame.trans hsame.trans

/-- The instance leaves its task. -/
theorem leave (h : Consistent initial s g) {i : Nat} (hi : s.Pending i) {position : Position}
    (hposition : position ≠ .waiting)
    (happlied : ∀ j ∈ s.applied, (s.moveTo i position).Approved j)
    (happroved : position = .approved → i ∈ s.applied ∨ g' = some (.apply i))
    (hold : ∀ j, j ∈ s.applied ∨ g = some (.apply j) → j ∈ s.applied ∨ g' = some (.apply j)) :
    Consistent initial (s.leave i position) g' ∧ ∀ j, ¬ (s.leave i position).Pending j := by
  refine h.moveTo hi hposition happlied happroved hold fun j hj => ?_
  obtain ⟨hmem, hne⟩ := List.mem_filter.1 hj
  refine ⟨hmem, fun hij => ?_⟩
  simp [hij] at hne

/-- What is applied stays approved when another instance goes on. -/
theorem approved_moveTo (h : Consistent initial s g) {i : Nat} {position : Position}
    (hnew : i ∉ s.applied) (hg : ∀ j, g ≠ some (.approve j)) :
    ∀ j ∈ s.applied, (s.moveTo i position).Approved j := by
  intro j hj
  have hne : i ≠ j := fun hij => hnew (hij ▸ hj)
  rw [Office.Approved, position_moveTo_ne hne]
  exact (h.applied j hj).resolve_right fun hgap => hg j hgap.1

/-- The instance is cancelled, or denied. -/
theorem leave_unapproved (h : Consistent initial s g) {i : Nat} (hi : s.Pending i)
    {position : Position} (hposition : position ≠ .waiting) (hdenied : position ≠ .approved)
    (hg : ∀ j, g ≠ some (.approve j) ∧ g ≠ some (.apply j)) :
    Consistent initial (s.leave i position) none ∧ ∀ j, ¬ (s.leave i position).Pending j := by
  have hnew := h.not_applied hi (hg i).1
  refine h.leave hi hposition (h.approved_moveTo hnew fun j => (hg j).1)
    (fun happroved => absurd happroved hdenied) fun j hj => ?_
  exact .inl (hj.resolve_right (hg j).2)

/-- The timer of the instance fires. -/
theorem expire (h : Consistent initial s g) {i : Nat} (hi : s.Pending i)
    (hg : g ≠ some (.approve i)) : Consistent initial (s.moveTo i .timedOut) g := by
  have hnew := h.not_applied hi hg
  have hexpired : Position.timedOut ≠ .approved := by decide
  have happlied : ∀ j ∈ s.applied, (s.moveTo i .timedOut).Approved j := by
    intro j hj
    have hne : i ≠ j := fun hij => hnew (hij ▸ hj)
    rw [Office.Approved, position_moveTo_ne hne]
    refine (h.applied j hj).resolve_right fun ⟨hgap, hpending⟩ => ?_
    exact hne (h.one_running i j hi hpending)
  have hmoved : Consistent initial { s.moveTo i .timedOut with openTasks := s.openTasks } g ∧ _ :=
    h.moveTo hi (by decide) happlied (absurd · hexpired) (fun _ => id) fun j hj =>
      ⟨hj, fun _ => rfl⟩
  exact hmoved.1

/-- Only the records of other tasks change. -/
theorem openTasks (h : Consistent initial s g) {openTasks : List Task}
    (hlisted : ∀ i, .awaitManagerDecision i ∈ s.listTasks →
      .awaitManagerDecision i ∈ openTasks.take 50)
    (hrecords : ∀ i, .awaitManagerDecision i ∈ openTasks → .awaitManagerDecision i ∈ s.openTasks) :
    Consistent initial { s with openTasks } g :=
  ⟨h.one_running, h.owner, h.status, h.once, h.applied, h.approved, h.linked,
    fun i hi => hlisted i (h.listed i hi), fun i hi => h.records i (hrecords i hi)⟩

end Consistent

/-! ## What a request does -/

variable {request : Request} {phase : Phase} {outcome : Outcome}

/-- Where the call leaves the office and the request. -/
def Office.after (s : Office) (request : Request) (phase : Phase) : Outcome → Office × Phase
  | .ok => s.perform request phase
  | .failed => (s, phase.caught)
  | .lost => ((s.perform request phase).1, phase.caught)

theorem go_eq (s : System) (c : Nat) (request : Request) (phase : Phase) (outcome : Outcome) :
    s.go c request phase outcome =
      ⟨(s.office.after request phase outcome).1,
        s.requests.set c (request, (s.office.after request phase outcome).2)⟩ := by
  cases outcome <;> rfl

theorem gap_of_outside {r : Request × Phase} (hr : inside r = false) : gap r = none := by
  unfold inside at hr
  unfold gap
  split at hr <;> simp_all

/-- What holds when no other request is past its checks. -/
structure Alone (initial : OrganizationStatus) (s : Office) (r : Request × Phase) : Prop where
  consistent : Consistent initial s (gap r)
  knows : s.Knows r

/-- The request is over. -/
theorem Alone.done (h : Consistent initial s none) : Alone initial s (request, .done) := by
  cases request <;> exact ⟨h, trivial⟩

/-- The request makes no change, and knows all that it needs. -/
theorem Alone.unchanged {next : Phase} (h : Consistent initial s none)
    (hgap : gap (request, next) = none) (hknows : s.Knows (request, next)) :
    Alone initial s (request, next) := by
  refine ⟨?_, hknows⟩
  rw [hgap]
  exact h

theorem requested_of_getElem? {i : Nat} {inst : Instance} (hi : s.instances[i]? = some inst) :
    s.requested i = some inst.requestedStatus.status :=
  congrArg (Option.map fun inst : Instance => inst.requestedStatus.status) hi

theorem knows_read (request : Request) : s.Knows (request, s.read request) := by
  unfold Office.read
  cases request with
  | requestStatusChange employeeId rs reason =>
    dsimp only
    split_ifs with hchecks
    · exact ⟨hchecks.2.1, hchecks.1.symm⟩
    · trivial
  | cancelStatusChange employeeId =>
    dsimp only
    split_ifs
    · cases hlink : s.organization.workflowInstanceId with
      | none => trivial
      | some i => exact hlink
    · trivial
  | decide decision =>
    dsimp only
    cases hlink : s.organization.workflowInstanceId with
    | none => trivial
    | some i => exact hlink
  | complete i decision =>
    dsimp only
    cases hget : s.instances[i]? with
    | none => trivial
    | some inst => exact requested_of_getElem? hget

theorem gap_read (request : Request) : gap (request, s.read request) = none := by
  unfold Office.read
  cases request with
  | requestStatusChange =>
    dsimp only
    split_ifs <;> rfl
  | cancelStatusChange =>
    dsimp only
    split_ifs
    · cases s.organization.workflowInstanceId <;> rfl
    · rfl
  | decide decision =>
    dsimp only
    cases s.organization.workflowInstanceId <;> rfl
  | complete i decision =>
    dsimp only
    cases s.instances[i]? <;> rfl

/-- The first query of any request. -/
theorem Alone.reading (h : Alone initial s (request, .reading)) :
    Alone initial (s.after request .reading outcome).1
      (request, (s.after request .reading outcome).2) := by
  have hnone : Consistent initial s none := by
    have hgap : gap (request, .reading) = none := gap_of_outside (by cases request <;> rfl)
    have hconsistent := h.consistent
    rwa [hgap] at hconsistent
  have hsame : s.perform request .reading = (s, s.read request) := by cases request <;> rfl
  unfold Office.after
  rw [hsame]
  cases outcome with
  | ok => exact .unchanged hnone (gap_read request) (knows_read request)
  | failed => exact .done hnone
  | lost => exact .done hnone

theorem Alone.requestStatusChange {reason : String}
    (h : Alone initial s (.requestStatusChange employeeId rs reason, phase))
    (hunbroken : s.Unbroken outcome (.requestStatusChange employeeId rs reason, phase)) :
    Alone initial (s.after (.requestStatusChange employeeId rs reason) phase outcome).1
      (.requestStatusChange employeeId rs reason,
        (s.after (.requestStatusChange employeeId rs reason) phase outcome).2) := by
  cases phase with
  | reading => exact h.reading
  | starting =>
    obtain ⟨hunlinked, howner⟩ := h.knows
    cases outcome with
    | ok => exact ⟨h.consistent.start hunlinked howner (hunbroken.2 rfl), hunlinked⟩
    | failed => exact .done h.consistent
    | lost => exact absurd rfl hunbroken.1
  | linking i =>
    have hlink := h.consistent.link h.knows reason
    cases outcome with
    | ok => exact .done hlink
    | failed => exact absurd rfl hunbroken
    | lost => exact .done hlink
  | cancelling => cases outcome <;> exact ⟨h.consistent, trivial⟩
  | _ => cases outcome <;> exact .done h.consistent

/-- Nothing is pending after the instance has been cancelled. -/
theorem Consistent.cancel (h : Consistent initial s none) {i : Nat} (hlinked : s.Linked i) :
    ∃ s', (if s.position i = some .waiting then s.leave i .cancelled else s) = s' ∧
      Consistent initial s' none ∧ ∀ j, ¬ s'.Pending j := by
  refine ⟨_, rfl, ?_⟩
  split_ifs with hpending
  · exact h.leave_unapproved hpending (by decide) (by decide) fun j => ⟨nofun, nofun⟩
  · exact ⟨h, h.not_pending hpending hlinked⟩

theorem Alone.cancelStatusChange (h : Alone initial s (.cancelStatusChange employeeId, phase))
    (hunbroken : s.Unbroken outcome (.cancelStatusChange employeeId, phase)) :
    Alone initial (s.after (.cancelStatusChange employeeId) phase outcome).1
      (.cancelStatusChange employeeId,
        (s.after (.cancelStatusChange employeeId) phase outcome).2) := by
  cases phase with
  | reading => exact h.reading
  | cancelling i =>
    obtain ⟨s', rfl, hcancel, hnone⟩ := h.consistent.cancel h.knows
    cases outcome with
    | ok => exact ⟨hcancel, hnone⟩
    | failed => exact absurd rfl hunbroken
    | lost => exact ⟨hcancel, hnone⟩
  | clearing =>
    have hclear := h.consistent.clear (g := none) fun i hi => absurd hi (h.knows i)
    cases outcome with
    | ok => exact .done hclear
    | failed => exact .done h.consistent
    | lost => exact .done hclear
  | _ => cases outcome <;> exact .done h.consistent

/-! ### Decisions -/

section Decide

variable {decision : Decision} {i : Nat}

theorem Alone.listing (h : Alone initial s (.decide decision, .listing i)) :
    Alone initial s (.decide decision,
      if .awaitManagerDecision i ∈ s.listTasks then .fetching i else .checking i) := by
  split_ifs with hlisted
  · exact ⟨h.consistent, h.knows, h.consistent.records i (List.mem_of_mem_take hlisted)⟩
  · exact ⟨h.consistent, h.knows⟩

theorem Alone.checking (h : Alone initial s (.decide decision, .checking i)) :
    Alone initial s (.decide decision,
      if s.position i = some .waiting then .done else .expiring) := by
  split_ifs with hpending
  · exact .done h.consistent
  · exact ⟨h.consistent, h.consistent.not_pending hpending h.knows⟩

theorem Alone.fetching (h : Alone initial s (.decide decision, .fetching i)) :
    Alone initial (s.perform (.decide decision) (.fetching i)).1
      (.decide decision, (s.perform (.decide decision) (.fetching i)).2) := by
  unfold Office.perform
  dsimp only
  cases hget : s.instances[i]? with
  | none => exact .done h.consistent
  | some inst => exact ⟨h.consistent, h.knows.1, h.knows.2, requested_of_getElem? hget⟩

theorem Alone.deciding (h : Alone initial s (.decide decision, .deciding i rs))
    (hexpired : decision = .approved → s.position i ≠ some .timedOut) :
    Alone initial (s.perform (.decide decision) (.deciding i rs)).1
      (.decide decision, (s.perform (.decide decision) (.deciding i rs)).2) := by
  obtain ⟨hlinked, hrecord, hrequested⟩ := h.knows
  have happlied : ∀ j ∈ s.applied, s.Approved j := fun j hj =>
    (h.consistent.applied j hj).resolve_right (by simp [gap])
  have hpending : ∀ j, s.Pending j → j = i := fun j hj =>
    Option.some.inj (((h.consistent.linked j hj).resolve_right (by simp [gap])).symm.trans hlinked)
  cases decision with
  | approved =>
    have hi : s.Pending i := hrecord.resolve_right (hexpired rfl)
    refine ⟨h.consistent.apply (h.consistent.not_applied hi nofun) hrequested happlied
      (.inr ⟨rfl, hi⟩) (fun j hj => ?_) (fun j hj => by rw [hpending j hj]; rfl), fun _ => ⟨?_, hi⟩⟩
    · exact .inl ((h.consistent.approved j hj).resolve_right (by simp [gap]))
    · exact List.mem_append_right _ (List.mem_singleton_self i)
  | denied => exact ⟨h.consistent.clear fun j hj => by rw [hpending j hj]; rfl, nofun⟩

/-- The task of the applied change is completed. -/
theorem Consistent.approve (h : Consistent initial s (some (.approve i))) (happlied : i ∈ s.applied)
    (hi : s.Pending i) : Consistent initial (s.leave i .approved) none := by
  refine (h.leave hi (by decide) (fun j hj => ?_) (fun _ => .inl happlied) fun j hj => ?_).1
  · by_cases hij : i = j
    · subst hij
      exact position_moveTo_self hi
    · rw [Office.Approved, position_moveTo_ne hij]
      refine (h.applied j hj).resolve_right fun ⟨hgap, _⟩ => hij ?_
      cases hgap
      rfl
  · exact .inl (hj.resolve_right nofun)

/-- The task of the request that was denied is completed, if it is still open. -/
theorem Consistent.deny (h : Consistent initial s (some (.deny i))) :
    Consistent initial (if s.position i = some .waiting then s.leave i .denied else s) none := by
  split_ifs with hpending
  · exact (h.leave_unapproved hpending (by decide) (by decide) fun j => ⟨nofun, nofun⟩).1
  · refine ⟨h.one_running, h.owner, h.status, h.once, fun j hj => ?_, fun j hj => ?_,
      fun j hj => ?_, h.listed, h.records⟩
    · exact .inl ((h.applied j hj).resolve_right (by simp))
    · exact .inl ((h.approved j hj).resolve_right (by simp))
    · rcases h.linked j hj with hlinked | hgap | hgap | hgap
      · exact .inl hlinked
      · cases hgap
      · cases hgap
      · cases hgap
        exact absurd hj hpending

theorem Alone.signalling (h : Alone initial s (.decide decision, .signalling i)) :
    Consistent initial (s.perform (.decide decision) (.signalling i)).1 none := by
  have hconsistent := h.consistent
  cases decision with
  | approved =>
    obtain ⟨happlied, hi⟩ := h.knows rfl
    have hleave : (s.perform (.decide .approved) (.signalling i)).1 = s.leave i .approved :=
      if_pos hi
    rw [hleave]
    exact Consistent.approve hconsistent happlied hi
  | denied => exact Consistent.deny hconsistent

theorem Alone.decide (h : Alone initial s (.decide decision, phase))
    (hunbroken : s.Unbroken outcome (.decide decision, phase)) :
    Alone initial (s.after (.decide decision) phase outcome).1
      (.decide decision, (s.after (.decide decision) phase outcome).2) := by
  cases phase with
  | reading => exact h.reading
  | listing i =>
    cases outcome with
    | ok => exact h.listing
    | failed => exact .done h.consistent
    | lost => exact .done h.consistent
  | checking i =>
    cases outcome with
    | ok => exact h.checking
    | failed => exact .done h.consistent
    | lost => exact .done h.consistent
  | expiring =>
    have hclear := h.consistent.clear (g := none) fun i hi => absurd hi (h.knows i)
    cases outcome with
    | ok => exact .done hclear
    | failed => exact .done h.consistent
    | lost => exact .done hclear
  | fetching i =>
    have hsame : (s.perform (.decide decision) (.fetching i)).1 = s := by
      unfold Office.perform
      dsimp only
      cases s.instances[i]? <;> rfl
    cases outcome with
    | ok => exact h.fetching
    | failed => exact .done h.consistent
    | lost =>
      unfold Office.after
      rw [hsame]
      exact .done h.consistent
  | deciding i rs =>
    cases outcome with
    | ok => exact h.deciding fun happroved => hunbroken.2 happroved rfl
    | failed => exact .done h.consistent
    | lost => exact absurd rfl hunbroken.1
  | signalling i =>
    cases outcome with
    | ok => exact .done h.signalling
    | failed => exact absurd rfl hunbroken
    | lost => exact .done h.signalling
  | cancelling => cases outcome <;> exact ⟨h.consistent, trivial⟩
  | _ => cases outcome <;> exact .done h.consistent

end Decide

/-! ### The route for tasks -/

section Complete

variable {decision : TaskDecision} {i : Nat}

theorem Alone.completing (h : Alone initial s (.complete i decision, .completing rs)) :
    Alone initial (s.perform (.complete i decision) (.completing rs)).1
      (.complete i decision, (s.perform (.complete i decision) (.completing rs)).2) := by
  unfold Office.perform
  dsimp only
  split_ifs with hpending
  · have hnew := h.consistent.not_applied hpending nofun
    have hlinked : s.Linked i := (h.consistent.linked i hpending).resolve_right (by simp [gap])
    by_cases happroved : decision = .approved
    · subst happroved
      have hleave : Consistent initial (s.leave i .approved) (some (.apply i)) ∧ _ :=
        h.consistent.leave hpending (by decide) (h.consistent.approved_moveTo hnew nofun)
          (fun _ => .inr rfl) fun j hj => .inl (hj.resolve_right (by simp [gap]))
      exact ⟨hleave.1, hlinked, position_moveTo_self hpending, hnew,
        (requested_moveTo i i .approved).trans h.knows⟩
    · have hdecided : Position.decided (decision = .approved) = .denied := by
        simp [Position.decided, happroved]
      have hleave : Consistent initial (s.leave i .denied) none ∧ _ :=
        h.consistent.leave_unapproved hpending (by decide) (by decide) fun j => ⟨nofun, nofun⟩
      rw [hdecided]
      refine ⟨?_, ?_⟩
      · simpa [gap, happroved] using hleave.1
      · simpa [Office.Knows, happroved] using hleave.2
  · exact .done h.consistent

/-- It is found that the organization is linked to the instance. -/
theorem Alone.finding (h : Alone initial s (.complete i decision, .finding rs)) :
    Alone initial (s.perform (.complete i decision) (.finding rs)).1
      (.complete i decision, (s.perform (.complete i decision) (.finding rs)).2) := by
  unfold Office.perform
  dsimp only
  split_ifs with hlinked
  · exact ⟨h.consistent, h.knows⟩
  · have hunapproved : decision ≠ .approved := by
      rintro rfl
      exact hlinked h.knows.1
    have hconsistent := h.consistent
    rw [gap, if_neg hunapproved] at hconsistent
    exact .done hconsistent

theorem Alone.syncing (h : Alone initial s (.complete i decision, .syncing rs)) :
    Consistent initial (s.perform (.complete i decision) (.syncing rs)).1 none := by
  have hconsistent := h.consistent
  have hknows := h.knows
  by_cases happroved : decision = .approved
  · subst happroved
    obtain ⟨hlinked, hi, hnew, hrequested⟩ := hknows
    refine Consistent.apply hconsistent hnew hrequested (fun j hj => ?_) (.inl hi) (fun j hj => ?_)
      fun j hj => ?_
    · exact (hconsistent.applied j hj).resolve_right (by simp [gap])
    · refine (hconsistent.approved j hj).imp_right fun hgap => ?_
      cases hgap
      rfl
    · have hlinked' := (hconsistent.linked j hj).resolve_right (by simp [gap])
      obtain rfl : i = j := Option.some.inj (hlinked.symm.trans hlinked')
      exact absurd hj (ne_of_position hi (by decide))
  · rw [gap, if_neg happroved] at hconsistent
    rw [Office.Knows, if_neg happroved] at hknows
    have hclear := hconsistent.clear (g := none) fun j hj => absurd hj (hknows j)
    cases decision with
    | approved => exact absurd rfl happroved
    | rejected => exact hclear
    | revision_requested => exact hclear

theorem gap_of_unapproved (h : decision ≠ .approved) :
    gap (.complete i decision, phase) = none := by
  unfold gap
  split <;> simp_all

theorem Alone.complete (h : Alone initial s (.complete i decision, phase))
    (hunbroken : s.Unbroken outcome (.complete i decision, phase)) :
    Alone initial (s.after (.complete i decision) phase outcome).1
      (.complete i decision, (s.after (.complete i decision) phase outcome).2) := by
  cases phase with
  | reading => exact h.reading
  | completing rs =>
    cases outcome with
    | ok => exact h.completing
    | failed => exact .done h.consistent
    | lost =>
      have hunapproved : decision ≠ .approved := fun happroved => hunbroken happroved rfl
      have hconsistent := h.completing.consistent
      rw [gap_of_unapproved hunapproved] at hconsistent
      exact .done hconsistent
  | finding rs =>
    have hover : decision ≠ .approved → Consistent initial s none := by
      intro hunapproved
      have hconsistent := h.consistent
      rwa [gap_of_unapproved hunapproved] at hconsistent
    cases outcome with
    | ok => exact h.finding
    | failed => exact .done (hover fun happroved => nomatch hunbroken happroved)
    | lost => exact .done (hover fun happroved => nomatch hunbroken happroved)
  | syncing rs =>
    cases outcome with
    | ok =>
      have hdone : (s.perform (.complete i decision) (.syncing rs)).2 = .done := by
        cases decision <;> rfl
      unfold Office.after
      dsimp only
      rw [hdone]
      exact .done h.syncing
    | failed =>
      have hunapproved : decision ≠ .approved := fun happroved => hunbroken happroved rfl
      have hconsistent := h.consistent
      rw [gap_of_unapproved hunapproved] at hconsistent
      exact .done hconsistent
    | lost => exact .done h.syncing
  | cancelling => cases outcome <;> exact ⟨h.consistent, trivial⟩
  | _ => cases outcome <;> exact .done h.consistent

end Complete

/-- Every call of a request that does not break off. -/
theorem Alone.after (h : Alone initial s (request, phase))
    (hunbroken : s.Unbroken outcome (request, phase)) :
    Alone initial (s.after request phase outcome).1
      (request, (s.after request phase outcome).2) := by
  cases request with
  | requestStatusChange => exact h.requestStatusChange hunbroken
  | cancelStatusChange => exact h.cancelStatusChange hunbroken
  | decide => exact h.decide hunbroken
  | complete => exact h.complete hunbroken

/-! ## Runs -/

theorem requested_start {i : Nat} {status : OrganizationStatus}
    (hi : s.requested i = some status) :
    (s.start employeeId rs).requested i = some status := by
  obtain ⟨inst, hget, -⟩ := Option.map_eq_some_iff.1 hi
  exact (requested_start_of_lt (List.getElem?_eq_some_iff.1 hget).1).trans hi

theorem requested_perform {i : Nat} {status : OrganizationStatus}
    (hi : s.requested i = some status) :
    (s.perform request phase).1.requested i = some status := by
  have hleave : ∀ (j : Nat) (position : Position),
      (s.leave j position).requested i = some status :=
    fun j position => (requested_moveTo j i position).trans hi
  unfold Office.perform
  split <;> (try split) <;>
    first
    | exact hi
    | exact requested_start hi
    | exact hleave _ _

theorem requested_after {i : Nat} {status : OrganizationStatus} (outcome : Outcome)
    (hi : s.requested i = some status) :
    (s.after request phase outcome).1.requested i = some status := by
  cases outcome with
  | ok => exact requested_perform hi
  | failed => exact hi
  | lost => exact requested_perform hi

/-- A request that is not past its checks knows only what has been requested. -/
theorem Office.Knows.of_outside {r : Request × Phase} (h : s.Knows r) (hr : inside r = false)
    (hrequested : ∀ i status, s.requested i = some status → s'.requested i = some status) :
    s'.Knows r := by
  obtain ⟨request, phase⟩ := r
  cases request with
  | complete i decision =>
    cases phase with
    | completing rs => exact hrequested _ _ h
    | finding | syncing => cases hr
    | _ => trivial
  | _ =>
    cases phase with
    | reading | done => trivial
    | _ => cases hr

/-- A call that stays on this side of the checks. -/
theorem after_of_outside (hinside : inside (request, phase) = false)
    (henters : ¬ enters outcome (request, phase)) :
    (s.after request phase outcome).1 = s ∧
      inside (request, (s.after request phase outcome).2) = false ∧
        s.Knows (request, (s.after request phase outcome).2) := by
  cases request with
  | complete i decision =>
    cases phase with
    | reading =>
      cases outcome with
      | ok =>
        have hknows : s.Knows (.complete i decision, s.read (.complete i decision)) :=
          knows_read _
        have houtside : inside (.complete i decision, s.read (.complete i decision)) = false := by
          unfold Office.read
          dsimp only
          cases s.instances[i]? <;> rfl
        exact ⟨rfl, houtside, hknows⟩
      | failed => exact ⟨rfl, rfl, trivial⟩
      | lost => exact ⟨rfl, rfl, trivial⟩
    | completing rs =>
      have hfailed : outcome = .failed := not_not.1 henters
      subst hfailed
      exact ⟨rfl, rfl, trivial⟩
    | finding | syncing => cases hinside
    | _ => cases outcome <;> exact ⟨rfl, rfl, trivial⟩
  | _ =>
    cases phase with
    | reading =>
      cases outcome with
      | ok => exact absurd rfl henters
      | failed => exact ⟨rfl, rfl, trivial⟩
      | lost => exact ⟨rfl, rfl, trivial⟩
    | done => cases outcome <;> exact ⟨rfl, rfl, trivial⟩
    | _ => cases hinside

abbrev Overlap (r r' : Request × Phase) : Prop := inside r = true ∧ inside r' = true

structure System.Kept (initial : OrganizationStatus) (s : System) : Prop where
  apart : Sections.Apart Overlap s.requests
  knows : ∀ r ∈ s.requests, s.office.Knows r
  busy : ∀ r ∈ s.requests, inside r = true → Consistent initial s.office (gap r)
  idle : (∀ r ∈ s.requests, inside r = false) → Consistent initial s.office none

namespace System.Kept

variable {t t' : System} {c : Nat}

/-- A call of a request while no other one is past its checks. -/
theorem alone (h : t.Kept initial) (hr : t.requests[c]? = some (request, phase))
    (hothers : ∀ other ∈ t.requests.eraseIdx c, inside other = false) :
    Alone initial t.office (request, phase) := by
  refine ⟨?_, h.knows _ (List.mem_of_getElem? hr)⟩
  by_cases hinside : inside (request, phase) = true
  · exact h.busy _ (List.mem_of_getElem? hr) hinside
  · rw [Bool.not_eq_true] at hinside
    rw [gap_of_outside hinside]
    refine h.idle fun r hmem => ?_
    obtain ⟨j, hj⟩ := List.mem_iff_getElem?.1 hmem
    by_cases hjc : j = c
    · subst hjc
      obtain rfl := Option.some.inj (hr.symm.trans hj)
      exact hinside
    · exact hothers r (List.mem_eraseIdx_iff_getElem?.2 ⟨j, hjc, hj⟩)

theorem set (h : t.Kept initial) {office : Office} {next : Phase}
    (hr : t.requests[c]? = some (request, phase))
    (hothers : ∀ other ∈ t.requests.eraseIdx c, inside other = false)
    (hrequested : ∀ i status, t.office.requested i = some status →
      office.requested i = some status)
    (halone : Alone initial office (request, next)) :
    Kept initial ⟨office, t.requests.set c (request, next)⟩ := by
  have hcases : ∀ r ∈ t.requests.set c (request, next),
      r = (request, next) ∨ r ∈ t.requests ∧ inside r = false := by
    intro r hmem
    obtain ⟨j, hj⟩ := List.mem_iff_getElem?.1 hmem
    rcases Indexed.getElem?_set hj with ⟨-, rfl⟩ | ⟨hjc, hj⟩
    · exact .inl rfl
    · exact .inr ⟨List.mem_of_getElem? hj,
        hothers r (List.mem_eraseIdx_iff_getElem?.2 ⟨j, hjc, hj⟩)⟩
  refine ⟨h.apart.set (fun _ _ => And.symm) fun other hother hoverlap => ?_, fun r hmem => ?_,
    fun r hmem hinside => ?_, fun hidle => ?_⟩
  · exact absurd hoverlap.2 (by simp [hothers other hother])
  · rcases hcases r hmem with rfl | ⟨hmem, houtside⟩
    · exact halone.knows
    · exact (h.knows r hmem).of_outside houtside hrequested
  · rcases hcases r hmem with rfl | ⟨-, houtside⟩
    · exact halone.consistent
    · rw [houtside] at hinside
      cases hinside
  · have hgap := gap_of_outside (hidle _ (Indexed.mem_set_self hr))
    have hconsistent := halone.consistent
    rwa [hgap] at hconsistent

/-- A call of a request on the other side of its checks. -/
theorem setOutside (h : t.Kept initial) {next : Phase}
    (hr : t.requests[c]? = some (request, phase)) (hbefore : inside (request, phase) = false)
    (hafter : inside (request, next) = false) (hknows : t.office.Knows (request, next)) :
    Kept initial { t with requests := t.requests.set c (request, next) } := by
  have hne : ∀ r ∈ t.requests, inside r = true → r ≠ (request, phase) := by
    rintro r - hinside rfl
    rw [hbefore] at hinside
    cases hinside
  refine ⟨h.apart.set (fun _ _ => And.symm) (Sections.free_of_not fun _ hoverlap => ?_),
    fun r hmem => ?_, fun r hmem hinside => ?_, fun hidle => h.idle fun r hmem => ?_⟩
  · exact absurd hoverlap.1 (by simp [hafter])
  · rcases List.mem_or_eq_of_mem_set hmem with hmem | rfl
    · exact h.knows r hmem
    · exact hknows
  · rcases List.mem_or_eq_of_mem_set hmem with hmem | rfl
    · exact h.busy r hmem hinside
    · rw [hafter] at hinside
      cases hinside
  · by_contra hinside
    have hinside' : inside r = true := by simpa using hinside
    rw [hidle r (Indexed.mem_set_of_ne hr hmem (hne r hmem hinside'))] at hinside'
    cases hinside'

theorem go (h : t.Kept initial) (hr : t.requests[c]? = some (request, phase))
    (hunbroken : t.office.Unbroken outcome (request, phase))
    (henters : enters outcome (request, phase) →
      ∀ other ∈ t.requests.eraseIdx c, inside other = false) :
    (t.go c request phase outcome).Kept initial := by
  rw [go_eq]
  by_cases hpast : inside (request, phase) = true ∨ enters outcome (request, phase)
  · have hothers : ∀ other ∈ t.requests.eraseIdx c, inside other = false := by
      intro other hother
      rcases hpast with hinside | hentering
      · by_contra hother'
        exact h.apart.free hr other hother ⟨hinside, by simpa using hother'⟩
      · exact henters hentering other hother
    exact h.set hr hothers (fun _ _ => requested_after outcome)
      ((h.alone hr hothers).after hunbroken)
  · obtain ⟨hinside, hentering⟩ := not_or.1 hpast
    rw [Bool.not_eq_true] at hinside
    obtain ⟨hoffice, hafter, hknows⟩ := after_of_outside hinside hentering
    rw [hoffice]
    exact h.setOutside hr hinside hafter hknows

/-- The office changes without the requests. -/
theorem move (h : t.Kept initial) {office : Office}
    (hconsistent : ∀ g, (∃ r ∈ t.requests, inside r = true ∧ gap r = g) ∨ g = none →
      Consistent initial t.office g → Consistent initial office g)
    (hknows : ∀ r ∈ t.requests, t.office.Knows r → office.Knows r) :
    Kept initial { t with office } :=
  ⟨h.apart, fun r hr => hknows r hr (h.knows r hr),
    fun r hr hinside => hconsistent _ (.inl ⟨r, hr, hinside, rfl⟩) (h.busy r hr hinside),
    fun hidle => hconsistent _ (.inr rfl) (h.idle hidle)⟩

end System.Kept

theorem eq_of_approve {r : Request × Phase} {i : Nat} (h : gap r = some (.approve i)) :
    r = (.decide .approved, .signalling i) := by
  unfold gap at h
  split at h
  · cases h
  · rename_i decision j
    cases decision with
    | approved =>
      cases h
      rfl
    | denied => cases h
  · split_ifs at h
    cases h
  · split_ifs at h
    cases h
  · cases h

/-- What a request knows stays true when a timer fires, unless it has approved the change. -/
theorem Office.Knows.expire {r : Request × Phase} (h : s.Knows r) {i : Nat} (hi : s.Pending i)
    (hr : r ≠ (.decide .approved, .signalling i)) : (s.moveTo i .timedOut).Knows r := by
  have hpending : ∀ j, (s.moveTo i .timedOut).Pending j → s.Pending j := by
    intro j hj
    by_cases hij : i = j
    · subst hij
      exact hi
    · exact (position_moveTo_ne hij).symm.trans hj
  have hkeeps : ∀ {j position}, position ≠ .waiting → s.position j = some position →
      (s.moveTo i .timedOut).position j = some position := by
    intro j position hposition hj
    have hij : i ≠ j := fun hij => ne_of_position hj hposition (hij ▸ hi)
    exact (position_moveTo_ne hij).trans hj
  have hrecord : ∀ j, s.Pending j ∨ s.position j = some .timedOut →
      (s.moveTo i .timedOut).Pending j ∨
        (s.moveTo i .timedOut).position j = some .timedOut := by
    intro j hj
    by_cases hij : i = j
    · subst hij
      exact .inr (position_moveTo_self hi)
    · rw [Office.Pending, position_moveTo_ne hij]
      exact hj
  have hrequested : ∀ {j status}, s.requested j = some status →
      (s.moveTo i .timedOut).requested j = some status :=
    fun hj => (requested_moveTo i _ .timedOut).trans hj
  have happly : ∀ {decision : TaskDecision} {j : Nat} {rs : RequestedStatus},
      (if decision = .approved then
        s.Linked j ∧ s.Approved j ∧ j ∉ s.applied ∧ s.requested j = some rs.status
      else ∀ k, ¬ s.Pending k) →
      if decision = .approved then
        (s.moveTo i .timedOut).Linked j ∧ (s.moveTo i .timedOut).Approved j ∧
          j ∉ (s.moveTo i .timedOut).applied ∧
          (s.moveTo i .timedOut).requested j = some rs.status
      else ∀ k, ¬ (s.moveTo i .timedOut).Pending k := by
    intro decision j rs hj
    split_ifs at hj ⊢
    · obtain ⟨hlinked, happroved, hnew, hj⟩ := hj
      exact ⟨hlinked, hkeeps (by decide) happroved, hnew, hrequested hj⟩
    · exact fun k hk => hj k (hpending k hk)
  unfold Office.Knows at h ⊢
  split at h
  · exact h
  · exact h
  · exact h
  · exact fun j hj => h j (hpending j hj)
  · exact fun j hj => h j (hpending j hj)
  · exact h
  · exact h
  · exact ⟨h.1, hrecord _ h.2⟩
  · exact ⟨h.1, hrecord _ h.2.1, hrequested h.2.2⟩
  · rename_i j
    intro happroved
    subst happroved
    obtain ⟨happlied, hj⟩ := h rfl
    have hij : i ≠ j := fun hij => hr (hij ▸ rfl)
    exact ⟨happlied, (position_moveTo_ne hij).trans hj⟩
  · exact hrequested h
  · exact happly h
  · exact happly h
  · trivial

/-- Other records come and go. -/
theorem Office.Knows.openTasks {r : Request × Phase} (h : s.Knows r) (openTasks : List Task) :
    Office.Knows { s with openTasks } r := h

namespace System.Kept

variable {t t' : System} {c : Nat}

theorem step (h : t.Kept initial) {happening : Happening} (horderly : Orderly t happening)
    (hstep : t.step happening = some t') : t'.Kept initial := by
  cases happening with
  | request request =>
    cases hstep
    have hnew : inside (request, .reading) = false := by cases request <;> rfl
    refine ⟨h.apart.append (fun _ _ => And.symm) fun _ hoverlap => ?_, fun r hr => ?_,
      fun r hr hinside => ?_, fun hidle => h.idle fun r hr => hidle r (List.mem_append_left _ hr)⟩
    · exact absurd hoverlap.1 (by simp [hnew])
    · rcases List.mem_append.1 hr with hr | hr
      · exact h.knows r hr
      · obtain rfl := List.mem_singleton.1 hr
        cases request <;> trivial
    · rcases List.mem_append.1 hr with hr | hr
      · exact h.busy r hr hinside
      · obtain rfl := List.mem_singleton.1 hr
        rw [hnew] at hinside
        cases hinside
  | go c outcome =>
    unfold System.step at hstep
    cases hr : t.requests[c]? with
    | none => simp [hr] at hstep
    | some r =>
      obtain ⟨request, phase⟩ := r
      obtain ⟨hunbroken, henters⟩ := horderly _ hr
      simp only [hr] at hstep
      split at hstep
      · cases hstep
      · cases hstep
      · rename_i heq
        cases heq
        cases hstep
        exact h.go hr hunbroken henters
  | timeout i =>
    unfold System.step at hstep
    dsimp only at hstep
    split_ifs at hstep with hpending
    cases hstep
    refine h.move (fun g hg hconsistent => hconsistent.expire hpending ?_)
      fun r hr hknows => hknows.expire hpending fun heq => horderly (heq ▸ hr)
    rintro rfl
    rcases hg with ⟨r, hr, -, hgap⟩ | hnone
    · exact horderly (eq_of_approve hgap ▸ hr)
    · cases hnone
  | openTask id =>
    cases hstep
    refine h.move (fun g _ hconsistent => hconsistent.openTasks (fun i hi => ?_) fun i hi => ?_)
      fun r _ hknows => hknows.openTasks _
    · rw [List.take_append]
      exact List.mem_append_left _ hi
    · exact (List.mem_append.1 hi).resolve_right (by simp)
  | closeTask id =>
    cases hstep
    refine h.move (fun g _ hconsistent => hconsistent.openTasks (fun i hi => ?_) fun i hi => ?_)
      fun r _ hknows => hknows.openTasks _
    · exact mem_take_filter hi (by simp)
    · exact List.mem_of_mem_filter hi

/-- What is still to be done is to be done by a request. -/
theorem consistent (h : t.Kept initial) : ∃ g, Consistent initial t.office g ∧
    ∀ gap' ∈ g, ∃ r ∈ t.requests, gap r = some gap' := by
  by_cases hbusy : ∃ r ∈ t.requests, inside r = true
  · obtain ⟨r, hr, hinside⟩ := hbusy
    exact ⟨gap r, h.busy r hr hinside, fun gap' hgap => ⟨r, hr, hgap⟩⟩
  · refine ⟨none, h.idle fun r hr => ?_, nofun⟩
    by_contra hinside
    exact hbusy ⟨r, hr, by simpa using hinside⟩

end System.Kept

namespace System.Kept

variable {t t' : System}

end System.Kept

/-- No change of the status has been requested yet. -/
structure Office.Fresh (s : Office) : Prop where
  unlinked : s.organization.workflowInstanceId = none
  instances : s.instances = []
  /-- The open tasks are those of others. -/
  openTasks : ∀ i, .awaitManagerDecision i ∉ s.openTasks
  applied : s.applied = []

theorem Office.Fresh.kept (h : s.Fresh) :
    System.Kept s.organization.status { office := s } := by
  have hnone : ∀ i position, s.position i ≠ some position := by
    intro i position hi
    simp [Office.position, h.instances] at hi
  refine ⟨Sections.apart_nil, nofun, nofun, fun _ => ⟨fun i _ hi => absurd hi (hnone i _),
    fun inst hinst => ?_, ?_, ?_, fun i hi => ?_, fun i hi => absurd hi (hnone i _),
    fun i hi => absurd hi (hnone i _), fun i hi => absurd hi (hnone i _),
    fun i hi => absurd hi (h.openTasks i)⟩⟩
  · simp [h.instances] at hinst
  · simp [Office.statusAfter, h.applied]
  · simp [h.applied]
  · simp [h.applied] at hi

end NexusWorkflow.Organizations
