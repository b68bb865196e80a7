import NexusWorkflow.Proof.JobCommits

/-!
# The states of a user task

A claim and a release write the record as they have read it, whatever its status is by then; a
completion and the deletion of the instance are held back by the token and by the version of the
instance.  So a task keeps to its states as long as claims find open records and releases claimed
ones.
-/

namespace NexusWorkflow

variable {definitions : String → Nat → Option ProcessDefinition} {now new : Store} {job : Job}

/-- A claim finds its record open when it writes it, and a release finds it claimed. -/
def Job.Heeds (store : Store) : Job → Prop
  | .claim taskId _ _ => ∀ r ∈ store.userTasks.values, r.id = taskId → r.status = .unclaimed
  | .release taskId => ∀ r ∈ store.userTasks.values, r.id = taskId → r.status = .claimed
  | _ => True

instance (store : Store) : (job : Job) → Decidable (job.Heeds store)
  | .claim taskId _ _ => inferInstanceAs
      (Decidable (∀ r ∈ store.userTasks.values, r.id = taskId → r.status = .unclaimed))
  | .release taskId => inferInstanceAs
      (Decidable (∀ r ∈ store.userTasks.values, r.id = taskId → r.status = .claimed))
  | .start _ _ _ _ _ | .complete _ _ _ _ | .cancel _ _ _ | .force _ _ _ _ _ _ | .cycle _ _ _ =>
      inferInstanceAs (Decidable True)

instance (store : Store) (n : Nat) : Decidable (store.Below n) :=
  decidable_of_iff ((∀ row ∈ store.instances.values, row.data.id < n) ∧
      ∀ t ∈ store.tokens.values, t.id < n ∧ t.instanceId < n)
    ⟨fun ⟨h, h'⟩ => ⟨h, h'⟩, fun ⟨h, h'⟩ => ⟨h, h'⟩⟩

instance (store : Store) (job : Job) : Decidable (job.HasNewIds store) :=
  inferInstanceAs (Decidable (∀ n ∈ job.firstId?, store.Below n))

/-- The job may commit: its ids are new, and it heeds the status of its record. -/
def Job.InOrder (store : Store) (job : Job) : Prop := job.HasNewIds store ∧ job.Heeds store

instance (store : Store) (job : Job) : Decidable (job.InOrder store) :=
  inferInstanceAs (Decidable (_ ∧ _))

/-- Jobs commit in order. -/
def inOrder (store : Store) (job : Job) (_ : List Store) : Prop := job.InOrder store

/-! ## One commit -/

namespace UserTaskRecord

variable {r : UserTaskRecord}

theorem outstanding_of_unclaimed (h : r.status = .unclaimed) : r.Outstanding := .inl h

theorem outstanding_of_claimed (h : r.status = .claimed) : r.Outstanding := .inr h

end UserTaskRecord

/-- No closed record is written. -/
theorem Advances.closed_stays {firstId : Nat} {state : EngineState}
    {created closed : List UserTaskRecord} (h : Advances now firstId state created closed new)
    {r : UserTaskRecord} (hr : r ∈ now.userTasks.values) (hclosed : ¬ r.Outstanding) :
    r ∈ new.userTasks.values := by
  refine (h.tasks.records r).2 (.inr (.inr ⟨hr, fun x hx hid => ?_⟩))
  obtain ⟨y, hy, hout, hsame⟩ := h.sameTask hx
  rw [KeyedMap.eq_of_key_eq hy hr (hsame.id.symm.trans hid)] at hout
  exact hclosed hout

theorem Rewritten.other_stays {old task : UserTaskRecord} (h : Rewritten now old task new)
    {r : UserTaskRecord} (hr : r ∈ now.userTasks.values) (hne : r.id ≠ old.id) :
    r ∈ new.userTasks.values :=
  (h.records r).2 (.inr ⟨hr, hne⟩)

/-- A commit in order leaves the closed records as they are. -/
theorem Job.Changes.closed_stays (h : job.Changes now new) (hheeds : job.Heeds now)
    {r : UserTaskRecord} (hr : r ∈ now.userTasks.values) (hclosed : ¬ r.Outstanding) :
    r ∈ new.userTasks.values := by
  cases h with
  | start h => exact h.closed_stays hr hclosed
  | @claim taskId _ _ old _ hid h =>
    refine h.other_stays hr fun heq => hclosed ?_
    exact UserTaskRecord.outstanding_of_unclaimed (hheeds r hr (heq.trans hid))
  | @release taskId old _ hid h =>
    refine h.other_stays hr fun heq => hclosed ?_
    exact UserTaskRecord.outstanding_of_claimed (hheeds r hr (heq.trans hid))
  | cycle _ _ _ h => exact h.closed_stays hr hclosed

theorem Advances.taken_stays {firstId : Nat} {state : EngineState}
    {created closed : List UserTaskRecord} (h : Advances now firstId state created closed new)
    {r : UserTaskRecord} (hr : r ∈ now.userTasks.values) (htaken : r.status ≠ .unclaimed) :
    ∃ x ∈ new.userTasks.values, x.id = r.id ∧ x.status ≠ .unclaimed := by
  by_cases hclosed : ∃ x ∈ closed, x.id = r.id
  · obtain ⟨x, hx, hid⟩ := hclosed
    refine ⟨x, (h.tasks.records x).2 (.inr (.inl hx)), hid, fun hopen => ?_⟩
    exact (h.tasks.stale x hx).1 (UserTaskRecord.outstanding_of_unclaimed hopen)
  · exact ⟨r, (h.tasks.records r).2 (.inr (.inr ⟨hr, fun x hx hid => hclosed ⟨x, hx, hid⟩⟩)), rfl,
      htaken⟩

/-- Only its release opens a task again. -/
theorem Job.Changes.taken_stays (h : job.Changes now new) {r : UserTaskRecord}
    (hr : r ∈ now.userTasks.values) (htaken : r.status ≠ .unclaimed) (hnot : job ≠ .release r.id) :
    ∃ x ∈ new.userTasks.values, x.id = r.id ∧ x.status ≠ .unclaimed := by
  cases h with
  | start h => exact h.taken_stays hr htaken
  | @claim taskId claimedBy time old task hid h =>
    by_cases heq : r.id = old.id
    · exact ⟨_, (h.records _).2 (.inl rfl), h.sameTask.id.trans heq.symm, nofun⟩
    · exact ⟨r, h.other_stays hr heq, rfl, htaken⟩
  | @release taskId old task hid h =>
    refine ⟨r, h.other_stays hr fun heq => hnot ?_, rfl, htaken⟩
    rw [heq, hid]
  | cycle _ _ _ h => exact h.taken_stays hr htaken

/-! ## Runs -/

variable {ι : Type} [DecidableEq ι] {S S' : Shared ι Job Store}

theorem inOrder_kept :
    Shared.Kept (Job.program definitions) inOrder Store.Orderly Store.Onward :=
  jobs_kept fun _ _ _ h => h.1

theorem sound_of_run (hrun : Shared.Leads (Job.program definitions) inOrder (Shared.fresh ∅) S) :
    Shared.Sound (Job.program definitions) Store.Orderly Store.Onward S :=
  (hrun.kept inOrder_kept (.fresh orderly_empty)).1

/-- A step in a run changes nothing, or a job commits in order. -/
theorem step_cases (hrun : Shared.Leads (Job.program definitions) inOrder (Shared.fresh ∅) S)
    (h : Shared.Moves (Job.program definitions) inOrder S S') :
    S'.state = S.state ∧ S'.committed = S.committed ∨
      ∃ job, S'.committed = S.committed ++ [job] ∧ job.Heeds S.state ∧
        job.Changes S.state S'.state := by
  have hsound := sound_of_run hrun
  rcases h.cases hsound with hsame | ⟨job, seen, txn, hcommitted, hcommits⟩
  · exact .inl hsame
  · exact .inr ⟨job, hcommitted, hcommits.allowed.2,
      Job.changes hsound.state (fun hC => hC.1) hcommits⟩

/-- In a run, a closed record stays as it is. -/
theorem closed_stays_of_run
    (hrun : Shared.Leads (Job.program definitions) inOrder (Shared.fresh ∅) S)
    (hmore : Shared.Leads (Job.program definitions) inOrder S S') {r : UserTaskRecord}
    (hr : r ∈ S.state.userTasks.values) (hclosed : ¬ r.Outstanding) :
    r ∈ S'.state.userTasks.values := by
  induction hmore with
  | refl => exact hr
  | tail hmid hmove ih =>
    rcases step_cases (hrun.trans hmid) hmove with ⟨hsame, -⟩ | ⟨job, -, hheeds, hchanges⟩
    · rw [hsame]
      exact ih
    · exact hchanges.closed_stays hheeds ih hclosed

/-- After a claim, and as long as no release of the task has been committed, the task is not
open. -/
def ClaimsHold (S : Shared ι Job Store) : Prop :=
  ∀ (i taskId : Nat) (claimedBy : String) (time : Time),
    S.committed[i]? = some (.claim taskId claimedBy time) →
    (∀ k, i < k → S.committed[k]? ≠ some (.release taskId)) →
      ∃ r ∈ S.state.userTasks.values, r.id = taskId ∧ r.status ≠ .unclaimed

theorem claimsHold (hrun : Shared.Leads (Job.program definitions) inOrder (Shared.fresh ∅) S) :
    ClaimsHold S := by
  induction hrun with
  | refl => exact fun i _ _ _ h => by simp [Shared.fresh] at h
  | @tail S S' hrun hmove ih =>
    intro i taskId claimedBy time hclaim hnone
    rcases step_cases hrun hmove with ⟨hsame, hcommitted⟩ | ⟨job, hcommitted, -, hchanges⟩
    · rw [hcommitted] at hclaim hnone
      rw [hsame]
      exact ih i taskId claimedBy time hclaim hnone
    · rw [hcommitted] at hclaim hnone
      by_cases hi : i < S.committed.length
      · rw [List.getElem?_append_left hi] at hclaim
        obtain ⟨r, hr, hid, htaken⟩ := ih i taskId claimedBy time hclaim fun k hk hrelease => by
          have hlt := (List.getElem?_eq_some_iff.1 hrelease).1
          exact hnone k hk (by rw [List.getElem?_append_left hlt]; exact hrelease)
        have hnot : job ≠ .release r.id := by
          intro heq
          refine hnone S.committed.length hi ?_
          rw [List.getElem?_concat_length, heq, hid]
        obtain ⟨x, hx, hxid, hxtaken⟩ := hchanges.taken_stays hr htaken hnot
        exact ⟨x, hx, hxid.trans hid, hxtaken⟩
      · -- it is the claim that commits
        have hlt := (List.getElem?_eq_some_iff.1 hclaim).1
        rw [List.length_append, List.length_singleton] at hlt
        obtain rfl : i = S.committed.length := by omega
        rw [List.getElem?_concat_length] at hclaim
        cases hclaim
        cases hchanges with
        | claim hid h => exact ⟨_, (h.records _).2 (.inl rfl), h.sameTask.id.trans hid, nofun⟩
        | cycle hruns _ _ _ => cases hruns

/-- Of two claims of a task the second comes after a release. -/
theorem released_between (hrun : Shared.Leads (Job.program definitions) inOrder (Shared.fresh ∅) S)
    {i j taskId : Nat} {first second : String} {t u : Time} (hij : i < j)
    (hfirst : S.committed[i]? = some (.claim taskId first t))
    (hsecond : S.committed[j]? = some (.claim taskId second u)) :
    ∃ k, i < k ∧ k < j ∧ S.committed[k]? = some (.release taskId) := by
  induction hrun with
  | refl => simp [Shared.fresh] at hfirst
  | @tail S S' hrun hmove ih =>
    rcases step_cases hrun hmove with ⟨-, hcommitted⟩ | ⟨job, hcommitted, hheeds, hchanges⟩
    · rw [hcommitted] at hfirst hsecond ⊢
      exact ih hfirst hsecond
    · rw [hcommitted] at hfirst hsecond ⊢
      have hlt := (List.getElem?_eq_some_iff.1 hsecond).1
      rw [List.length_append, List.length_singleton] at hlt
      have hi : i < S.committed.length := by omega
      rw [List.getElem?_append_left hi] at hfirst
      by_cases hj : j < S.committed.length
      · rw [List.getElem?_append_left hj] at hsecond
        obtain ⟨k, hik, hkj, hrelease⟩ := ih hfirst hsecond
        exact ⟨k, hik, hkj, by rw [List.getElem?_append_left (hkj.trans hj)]; exact hrelease⟩
      · obtain rfl : j = S.committed.length := by omega
        rw [List.getElem?_concat_length] at hsecond
        cases hsecond
        by_contra hnone
        obtain ⟨r, hr, hid, htaken⟩ :=
          claimsHold hrun i taskId first t hfirst fun k hik hrelease => by
          have hk := (List.getElem?_eq_some_iff.1 hrelease).1
          exact hnone ⟨k, hik, hk, by rw [List.getElem?_append_left hk]; exact hrelease⟩
        exact htaken (hheeds r hr hid)

/-- In a run whose claims find open records and whose releases find claimed ones: a closed record
stays as it is; a claim takes an open task, so that of any number of claims one is committed until
the task is released; and a release opens a claimed task. -/
theorem user_task_states
    (hrun : Shared.Leads (Job.program definitions) inOrder (Shared.fresh ∅) S) :
    (∀ S', Shared.Leads (Job.program definitions) inOrder S S' →
      ∀ r ∈ S.state.userTasks.values, ¬ r.Outstanding → r ∈ S'.state.userTasks.values) ∧
    (∀ (S' : Shared ι Job Store) (taskId : Nat) (claimedBy : String) (time : Time),
      Shared.Moves (Job.program definitions) inOrder S S' →
      S'.committed = S.committed ++ [.claim taskId claimedBy time] →
        ∃ r ∈ S.state.userTasks.values, r.id = taskId ∧ r.status = .unclaimed) ∧
    (∀ (i j taskId : Nat) (first second : String) (t u : Time), i < j →
      S.committed[i]? = some (.claim taskId first t) →
      S.committed[j]? = some (.claim taskId second u) →
        ∃ k, i < k ∧ k < j ∧ S.committed[k]? = some (.release taskId)) ∧
    ∀ (S' : Shared ι Job Store) (taskId : Nat),
      Shared.Moves (Job.program definitions) inOrder S S' →
      S'.committed = S.committed ++ [.release taskId] →
        (∃ r ∈ S.state.userTasks.values, r.id = taskId ∧ r.status = .claimed) ∧
          ∃ r ∈ S'.state.userTasks.values, r.id = taskId ∧ r.status = .unclaimed := by
  refine ⟨fun S' hmore r hr hclosed => closed_stays_of_run hrun hmore hr hclosed,
    fun S' taskId claimedBy time hmove hclaim => ?_,
    fun i j taskId first second t u hij hfirst hsecond => released_between hrun hij hfirst hsecond,
    fun S' taskId hmove hrelease => ?_⟩
  · rcases step_cases hrun hmove with ⟨-, hsame⟩ | ⟨job, hcommitted, hheeds, hchanges⟩
    · exact absurd (hsame.symm.trans hclaim) Shared.committed_ne
    · obtain rfl := List.singleton_inj.1 (List.append_cancel_left (hcommitted.symm.trans hclaim))
      cases hchanges with
      | @claim _ _ _ old _ hid h => exact ⟨old, h.mem, hid, hheeds old h.mem hid⟩
      | cycle hruns _ _ _ => cases hruns
  · rcases step_cases hrun hmove with ⟨-, hsame⟩ | ⟨job, hcommitted, hheeds, hchanges⟩
    · exact absurd (hsame.symm.trans hrelease) Shared.committed_ne
    · obtain rfl := List.singleton_inj.1 (List.append_cancel_left (hcommitted.symm.trans hrelease))
      cases hchanges with
      | @release _ old task hid h =>
        exact ⟨⟨old, h.mem, hid, hheeds old h.mem hid⟩, _, (h.records _).2 (.inl rfl),
          h.sameTask.id.trans hid, rfl⟩
      | cycle hruns _ _ _ => cases hruns

/-! ## An interview -/

open Diagram

/-- An interview is started, and its first task is claimed and completed. -/
def interviewJobs : List Job :=
  [.start interview none none none (circumstances 0), .claim 0 "first" 1,
    .complete 0 "first" none (circumstances 2)]

/-- The completed record of the first task stays as it is. -/
theorem user_task_states_interview : ∃ store, ∃ r ∈ store.userTasks.values,
    Shared.performs (Job.program fun _ _ => some interview) Job.InOrder interviewJobs ∅ =
      some store ∧
    r.status = .completed ∧ ∀ S' : Shared Bool Job Store,
      Shared.Leads (Job.program fun _ _ => some interview) inOrder
        ⟨store, fun _ => none, interviewJobs⟩ S' → r ∈ S'.state.userTasks.values := by
  have hruns :
      (Shared.performs (Job.program fun _ _ => some interview) Job.InOrder interviewJobs ∅).any
      (fun store => ∃ r ∈ store.userTasks.values, r.status = .completed) = true := by decide +kernel
  obtain ⟨store, hstore, hfacts⟩ := (Option.any_eq_true ..).1 hruns
  obtain ⟨r, hr, hcompleted⟩ := of_decide_eq_true hfacts
  have hrun : Shared.Leads (Job.program fun _ _ => some interview) inOrder
      (Shared.fresh ∅ : Shared Bool Job Store) ⟨store, fun _ => none, interviewJobs⟩ :=
    Shared.Leads.performs (fun _ _ _ _ h => h) interviewJobs .refl hstore
  refine ⟨store, r, hr, hstore, hcompleted, fun S' hmore => ?_⟩
  refine (user_task_states hrun).1 S' hmore r hr fun hout => ?_
  rcases hout with h | h <;> rw [hcompleted] at h <;> cases h

/-- A second user claims the completed task, and the record is a claimed one again. -/
theorem not_user_task_states_interview : ∃ S S' : Shared Bool Job Store,
    Shared.Leads (Job.program fun _ _ => some interview) newIds (Shared.fresh ∅) S ∧
    Shared.Leads (Job.program fun _ _ => some interview) newIds S S' ∧
    S'.committed = S.committed ++ [.claim 0 "second" 3] ∧
    (∃ r ∈ S.state.userTasks.values, r.id = 0 ∧ r.status = .completed ∧ r.assignee = some "first") ∧
    ∃ r ∈ S'.state.userTasks.values, r.id = 0 ∧ r.status = .claimed ∧
      r.assignee = some "second" := by
  have hruns :
      (Shared.performs (Job.program fun _ _ => some interview) Job.HasNewIds interviewJobs ∅).any
      (fun store => (∃ r ∈ store.userTasks.values,
          r.id = 0 ∧ r.status = .completed ∧ r.assignee = some "first") ∧
        (Shared.performs (Job.program fun _ _ => some interview) Job.HasNewIds [.claim 0 "second" 3]
          store).any (fun store' => ∃ r ∈ store'.userTasks.values,
            r.id = 0 ∧ r.status = .claimed ∧ r.assignee = some "second") = true) = true := by
    decide +kernel
  obtain ⟨store, hstore, hfacts⟩ := (Option.any_eq_true ..).1 hruns
  obtain ⟨hcompleted, hmore⟩ := of_decide_eq_true hfacts
  obtain ⟨store', hstore', hfacts⟩ := (Option.any_eq_true ..).1 hmore
  have hrun : Shared.Leads (Job.program fun _ _ => some interview) newIds
      (Shared.fresh ∅ : Shared Bool Job Store) ⟨store, fun _ => none, interviewJobs⟩ :=
    Shared.Leads.performs (fun _ _ _ _ h => h) interviewJobs .refl hstore
  exact ⟨_, _, hrun, Shared.Leads.performs (fun _ _ _ _ h => h) _ .refl hstore', rfl, hcompleted,
    of_decide_eq_true hfacts⟩

end NexusWorkflow
