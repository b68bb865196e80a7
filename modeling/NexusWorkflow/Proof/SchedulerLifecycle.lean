import NexusWorkflow.Lib.Interference
import NexusWorkflow.Model.Scheduling

/-!
# Lifecycle of the scheduler

What a poll has found is fired when it ends, and `start` leaves an interval behind, whatever else
goes on.  That there is one interval at most, and nothing goes on once `stop` has resolved, needs an
orderly use: `stop` looks at the handle only, and the handle is set after the first poll.
-/

namespace NexusWorkflow.Scheduling

variable {callbacks : Nat} {s s' : Scheduler}

/-! ## Where a call is -/

/-- The operation that the call waits for. -/
def current : SchedulerProcess → Option SchedulerOp
  | .done _ => none
  | .call op _ => some op

/-- A poll waits for it. -/
def SchedulerOp.polls : SchedulerOp → Bool
  | getDueTimers | deleteTimer _ | callback _ _ => true
  | start | setInterval | stop | tick _ => false

/-- A poll or a `start` under way waits for it. -/
def SchedulerOp.underWay (op : SchedulerOp) : Bool := op.polls || op matches setInterval

/-- A poll is running, or a `start` has not resolved. -/
def Schedule.Busy (w : Schedule) : Prop :=
  w.processes.any (fun p => (current p).any (·.underWay)) = true

instance (w : Schedule) : Decidable w.Busy := inferInstanceAs (Decidable (_ = true))

/-! ## What an operation does -/

/-- The state that the operation leaves, and its answer. -/
inductive Does (s : Scheduler) :
    (op : SchedulerOp) → Scheduler → Except PollError op.Answer → Prop
  | starts : Does s .start { s with starts := s.starts + 1, stopped := false }
      (.ok (s.intervalHandle.map fun _ => s.stops))
  | finds (a : Except PollError (List ScheduledTimer)) : Does s .getDueTimers s a
  | takes (timer : ScheduledTimer) : Does s (.deleteTimer timer) (s.take timer) (.ok ())
  | fails (timer : ScheduledTimer) : Does s (.deleteTimer timer) s (.error .failed)
  | loses (timer : ScheduledTimer) : Does s (.deleteTimer timer)
      { s with timers := s.timers.erase timer.id, lost := s.lost ++ [timer] } (.error .failed)
  | fires (k : Nat) (timer : ScheduledTimer) (a : Except PollError Unit) :
      Does s (.callback k timer) { s with fired := s.fired ++ [(k, timer)] } a
  | sets : Does s .setInterval
      { s with intervalHandle := some s.handles, intervals := s.intervals ++ [s.handles],
               handles := s.handles + 1 } (.ok s.stops)
  | stops : Does s .stop
      { s with
        intervals := s.intervals.filter (some · ≠ s.intervalHandle)
        intervalHandle := none
        stops := s.stops + 1
        stopped := true } (.ok ())
  | ticks {handle : Nat} (h : handle ∈ s.intervals) : Does s (.tick handle) s (.ok ())

theorem does_of_mem {op : SchedulerOp} {a : Except PollError op.Answer}
    (h : (s', a) ∈ s.outcomes op) : Does s op s' a := by
  cases op with
  | start =>
    simp only [Scheduler.outcomes, List.mem_singleton, Prod.mk.injEq] at h
    obtain ⟨rfl, rfl⟩ := h
    exact .starts
  | getDueTimers =>
    simp only [Scheduler.outcomes, List.mem_cons, Prod.mk.injEq, List.not_mem_nil, or_false] at h
    rcases h with ⟨rfl, -⟩ | ⟨rfl, -⟩
    · exact .finds a
    · exact .finds a
  | deleteTimer timer =>
    simp only [Scheduler.outcomes, List.mem_cons, Prod.mk.injEq, List.not_mem_nil, or_false] at h
    rcases h with ⟨rfl, rfl⟩ | ⟨rfl, rfl⟩ | ⟨rfl, rfl⟩
    · exact .takes timer
    · exact .fails timer
    · exact .loses timer
  | callback k timer =>
    simp only [Scheduler.outcomes, List.mem_cons, Prod.mk.injEq, List.not_mem_nil, or_false] at h
    rcases h with ⟨rfl, -⟩ | ⟨rfl, -⟩
    · exact .fires k timer a
    · exact .fires k timer a
  | setInterval =>
    simp only [Scheduler.outcomes, List.mem_singleton, Prod.mk.injEq] at h
    obtain ⟨rfl, rfl⟩ := h
    exact .sets
  | stop =>
    simp only [Scheduler.outcomes, List.mem_singleton, Prod.mk.injEq] at h
    obtain ⟨rfl, rfl⟩ := h
    exact .stops
  | tick handle =>
    simp only [Scheduler.outcomes] at h
    split_ifs at h with hhandle
    · simp only [List.mem_singleton, Prod.mk.injEq] at h
      obtain ⟨rfl, rfl⟩ := h
      exact .ticks hhandle
    · cases h

/-! ## What always holds -/

/-- The handle is that of an interval. -/
def Scheduler.Sound (s : Scheduler) : Prop :=
  ∀ handle, s.intervalHandle = some handle → handle ∈ s.intervals

/-- Calls of `stop` and of callbacks are not undone, and only `stop` leaves no interval. -/
structure Scheduler.Follows (s s' : Scheduler) : Prop where
  stops : s.stops ≤ s'.stops
  intervals : s'.stops = s.stops → s.intervals ≠ [] → s'.intervals ≠ []
  fired : s.fired ⊆ s'.fired

theorem Scheduler.Follows.refl : s.Follows s := ⟨Nat.le_refl _, fun _ h => h, fun _ h => h⟩

theorem Scheduler.Follows.trans {s'' : Scheduler} (h : s.Follows s') (h' : s'.Follows s'') :
    s.Follows s'' := by
  refine ⟨Nat.le_trans h.stops h'.stops, fun hstops hne => ?_, fun _ hx => h'.fired (h.fired hx)⟩
  have h₁ := h.stops
  have h₂ := h'.stops
  exact h'.intervals (by omega) (h.intervals (by omega) hne)

theorem outcomes_follows {op : SchedulerOp} {a : Except PollError op.Answer} (hs : s.Sound)
    (h : (s', a) ∈ s.outcomes op) : s'.Sound ∧ s.Follows s' := by
  have hsame : ∀ x : Scheduler, x.intervalHandle = s.intervalHandle → x.intervals = s.intervals →
      x.stops = s.stops → s.fired ⊆ x.fired → x.Sound ∧ s.Follows x := by
    intro x hhandle hintervals hstops hfired
    refine ⟨fun handle hx => ?_, Nat.le_of_eq hstops.symm, fun _ hne => ?_, hfired⟩
    · rw [hintervals]
      exact hs handle (hhandle ▸ hx)
    · rwa [hintervals]
  cases does_of_mem h with
  | finds a => exact ⟨hs, .refl⟩
  | fails timer => exact ⟨hs, .refl⟩
  | ticks hhandle => exact ⟨hs, .refl⟩
  | starts => exact hsame _ rfl rfl rfl fun _ hx => hx
  | takes timer => exact hsame _ rfl rfl rfl fun _ hx => hx
  | loses timer => exact hsame _ rfl rfl rfl fun _ hx => hx
  | fires k timer a => exact hsame _ rfl rfl rfl (List.subset_append_left _ _)
  | sets =>
    refine ⟨fun handle hhandle => ?_, Nat.le_refl _, fun _ _ => by simp, fun _ hx => hx⟩
    cases hhandle
    simp
  | stops =>
    refine ⟨fun handle hhandle => ?_, Nat.le_succ _, fun hstops => ?_, fun _ hx => hx⟩
    · cases hhandle
    · exact absurd hstops (Nat.succ_ne_self _)

theorem event_follows {e : Event} (hs : s.Sound) : (e.apply s).Sound ∧ s.Follows (e.apply s) := by
  cases e with
  | wait ms => exact ⟨hs, Nat.le_refl _, fun _ h => h, fun _ h => h⟩
  | schedule timer => exact ⟨hs, Nat.le_refl _, fun _ h => h, fun _ h => h⟩
  | cancel timerId => exact ⟨hs, Nat.le_refl _, fun _ h => h, fun _ h => h⟩

/-! ## Polls -/

/-- What becomes of a function among the other calls. -/
abbrev Withstands {α : Type} (x : Task α) (Q : Scheduler → Except PollError α → Prop)
    (s : Scheduler) : Prop :=
  x.withstands (fun s op => s.outcomes op) (fun _ _ => True) Scheduler.Sound Scheduler.Follows Q s

theorem withstands_await {op : SchedulerOp} {Q : Scheduler → Except PollError op.Answer → Prop}
    (h : ∀ (s s' : Scheduler) (a : Except PollError op.Answer), s.Sound → (s', a) ∈ s.outcomes op →
    Q s' a) :
    Withstands (await op) Q s := by
  refine Async.withstands_await.2 fun s₁ s₂ a hsound _ hmem _ => ?_
  obtain ⟨hsound', hfollows⟩ := outcomes_follows hsound hmem
  exact ⟨hsound', hfollows, h s₁ s₂ a hsound hmem⟩

/-- Every callback has been called for these timers. -/
def Scheduler.Fired (callbacks : Nat) (due : List ScheduledTimer) (s : Scheduler) : Prop :=
  ∀ timer ∈ due, ∀ k < callbacks, (k, timer) ∈ s.fired

theorem Scheduler.Fired.follows {due : List ScheduledTimer} (h : s.Fired callbacks due)
    (hf : s.Follows s') :
    s'.Fired callbacks due := fun timer htimer k hk => hf.fired (h timer htimer k hk)

theorem withstands_fire {timer : ScheduledTimer} :
    Withstands (fire callbacks timer)
      (fun s r => ∀ u, r = .ok u → ∀ k < callbacks, (k, timer) ∈ s.fired) s := by
  unfold fire
  refine Async.withstands_bind.2 (withstands_await fun s₁ s₂ a _ _ => ?_)
  cases a with
  | error e => exact fun _ hu => by cases hu
  | ok _ =>
    have hloop : Withstands ((List.range callbacks).forM fun k => await (.callback k timer))
        (fun s r => ∀ u, r = .ok u → ∀ k ∈ List.range callbacks, (k, timer) ∈ s.fired) s₂ := by
      refine Async.withstands_forM (fun k s => withstands_await fun s₁ s₂ a _ hmem _ _ => ?_)
        fun _ _ _ h hf => hf.fired h
      cases does_of_mem hmem
      exact List.mem_append_right _ (List.mem_singleton_self _)
    exact Async.withstands_mono hloop fun _ _ h u hu k hk => h u hu k (List.mem_range.2 hk)

/-- A poll that ends without an error has fired what it has found. -/
theorem withstands_poll :
    Withstands (poll callbacks) (fun s r => ∀ due, r = .ok due → s.Fired callbacks due) s := by
  unfold poll
  refine Async.withstands_bind.2 (withstands_await fun s₁ s₂ a _ _ => ?_)
  cases a with
  | error e => exact fun _ hdue => by cases hdue
  | ok due =>
    have hloop : Withstands (due.forM (fire callbacks))
        (fun s r => ∀ u, r = .ok u → ∀ timer ∈ due, ∀ k < callbacks, (k, timer) ∈ s.fired) s₂ :=
      Async.withstands_forM (fun _ _ => withstands_fire) fun _ _ _ h hf k hk => hf.fired (h k hk)
    refine Async.withstands_bind.2 (Async.withstands_mono hloop ?_)
    rintro s₃ (e | u) h
    · exact fun _ hdue => by cases hdue
    · rintro _ ⟨⟩
      exact h u rfl

/-! ## Calls that have resolved -/

/-- What holds once a call has resolved with this. -/
def Holds (callbacks : Nat) (s : Scheduler) : Except PollError Reply → Prop
  | .ok (.started stops due) =>
    stops ≤ s.stops ∧ (s.stops = stops → s.intervals ≠ []) ∧ s.Fired callbacks due
  | .ok (.polled due) => s.Fired callbacks due
  | _ => True

theorem Holds.follows {r : Except PollError Reply} (h : Holds callbacks s r) (hf : s.Follows s') :
    Holds callbacks s' r := by
  rcases r with e | (⟨stops, due⟩ | _ | due | _)
  · trivial
  · obtain ⟨hstops, hintervals, hfired⟩ := h
    have hle := hf.stops
    exact ⟨by omega, fun heq => hf.intervals (by omega) (hintervals (by omega)), hfired.follows hf⟩
  · trivial
  · exact Scheduler.Fired.follows h hf
  · trivial

theorem withstands_start : Withstands (start callbacks) (Holds callbacks) s := by
  unfold start
  refine Async.withstands_bind.2 (withstands_await fun s₁ s₂ a hsound hmem => ?_)
  cases does_of_mem hmem
  cases hhandle : s₁.intervalHandle with
  | some handle =>
    refine ⟨Nat.le_refl _, fun _ => List.ne_nil_of_mem (hsound handle hhandle), fun timer htimer =>
      ?_⟩
    cases htimer
  | none =>
    refine Async.withstands_bind.2 (Async.withstands_mono withstands_poll ?_)
    rintro s₃ (e | due) hfired
    · trivial
    · refine Async.withstands_bind.2 ?_
      have hset : Withstands (await .setInterval)
          (fun s r => ∀ stops, r = .ok stops → stops ≤ s.stops ∧
            (s.stops = stops → s.intervals ≠ [])) s₃ := by
        refine withstands_await fun s₄ s₅ a _ hmem stops hstops => ?_
        cases does_of_mem hmem
        cases hstops
        exact ⟨Nat.le_refl _, fun _ => by simp⟩
      have hframe := Async.withstands.frame hset (fun s => s.Fired callbacks due) (hfired due rfl)
        fun _ _ h hf => h.follows hf
      refine Async.withstands_mono hframe ?_
      rintro s₄ (e | stops) ⟨hstops, hfired'⟩
      · trivial
      · exact ⟨(hstops stops rfl).1, (hstops stops rfl).2, hfired'⟩

theorem withstands_tick {handle : Nat} :
    Withstands (tick callbacks handle) (Holds callbacks) s := by
  unfold tick
  refine Async.withstands_bind.2 (withstands_await fun s₁ s₂ a _ _ => ?_)
  cases a with
  | error e => trivial
  | ok _ =>
    refine Async.withstands_tryCatch.2
      (Async.withstands_bind.2 (Async.withstands_mono withstands_poll ?_))
    rintro s₃ (e | due) hfired
    · trivial
    · exact hfired due rfl

theorem withstands_program (call : SchedulerCall) :
    Process.withstands (fun s op => s.outcomes op)
      (fun _ _ => True) Scheduler.Sound Scheduler.Follows (call.program callbacks)
      (Holds callbacks) s := by
  cases call with
  | start => exact withstands_start
  | stop =>
    refine Async.withstands_bind.2 (withstands_await fun _ _ a _ _ => ?_)
    cases a with
    | error e => trivial
    | ok _ => trivial
  | tick handle => exact withstands_tick

/-! ## What follows a deletion -/

/-- After a timer has been deleted, the first callback is called. -/
inductive CallsBack (callbacks : Nat) {α : Type} :
    Process SchedulerOp SchedulerOp.Answer PollError α → Prop
  | done (a : α) : CallsBack callbacks (.done a)
  | call {op : SchedulerOp}
      {next : Except PollError op.Answer → Process SchedulerOp SchedulerOp.Answer PollError α}
      (hop : ∀ timer, op ≠ .deleteTimer timer) (h : ∀ a, CallsBack callbacks (next a)) :
      CallsBack callbacks (.call op next)
  | delete {timer : ScheduledTimer}
      {next : Except PollError Unit → Process SchedulerOp SchedulerOp.Answer PollError α}
      (hfirst : 0 < callbacks → ∃ rest, next (.ok ()) = .call (.callback 0 timer) rest)
      (h : ∀ a, CallsBack callbacks (next a)) :
      CallsBack callbacks (.call (.deleteTimer timer) next)

section CallsBack

variable {α β : Type}

theorem CallsBack.bind {p : Process SchedulerOp SchedulerOp.Answer PollError α}
    {f : α → Process SchedulerOp SchedulerOp.Answer PollError β} (hp : CallsBack callbacks p)
    (hf : ∀ a, CallsBack callbacks (f a)) : CallsBack callbacks (p >>= f) := by
  induction hp with
  | done a => exact hf a
  | call hop _ ih => exact .call hop ih
  | delete hfirst _ ih =>
    refine .delete (fun hpos => ?_) ih
    obtain ⟨rest, hrest⟩ := hfirst hpos
    exact ⟨fun a => (rest a).bind f, congrArg (fun p => Process.bind p f) hrest⟩

theorem CallsBack.async_bind {x : Task α} {f : α → Task β} (hx : CallsBack callbacks x.run)
    (hf : ∀ a, CallsBack callbacks (f a).run) : CallsBack callbacks (x >>= f).run := by
  rw [ExceptT.run_bind]
  refine hx.bind fun r => ?_
  cases r with
  | error e => exact .done _
  | ok a => exact hf a

theorem CallsBack.await {op : SchedulerOp} (hop : ∀ timer, op ≠ .deleteTimer timer) :
    CallsBack callbacks (Scheduling.await op).run := .call hop fun a => .done a

theorem CallsBack.forM {ι : Type} {l : List ι} {f : ι → Task PUnit}
    (hf : ∀ i, CallsBack callbacks (f i).run) : CallsBack callbacks (l.forM f).run := by
  induction l with
  | nil => exact .done _
  | cons i l ih => exact (hf i).async_bind fun _ => ih

theorem callsBack_fire {timer : ScheduledTimer} :
    CallsBack callbacks (fire callbacks timer).run := by
  refine .delete (fun hpos => ?_) fun a => ?_
  · obtain ⟨n, rfl⟩ := Nat.exists_eq_add_of_lt hpos
    rw [Nat.zero_add]
    have hrange : List.range (n + 1) = 0 :: (List.range n).map Nat.succ := List.range_succ_eq_map ..
    show ∃ rest, ((List.range (n + 1)).forM fun k => Scheduling.await (.callback k timer)).run = _
    rw [hrange]
    exact ⟨_, rfl⟩
  · cases a with
    | error e => exact .done _
    | ok _ => exact CallsBack.forM fun k => CallsBack.await fun _ h => by cases h

theorem callsBack_poll : CallsBack callbacks (poll callbacks).run :=
  (CallsBack.await fun _ h => by cases h).async_bind fun _ =>
    (CallsBack.forM fun _ => callsBack_fire).async_bind fun _ => .done _

theorem callsBack_program (call : SchedulerCall) :
    CallsBack callbacks (call.program callbacks) := by
  cases call with
  | start =>
    refine CallsBack.async_bind (CallsBack.await fun _ h => by cases h) fun stops => ?_
    cases stops with
    | some stops => exact .done _
    | none =>
      exact callsBack_poll.async_bind fun _ =>
        (CallsBack.await fun _ h => by cases h).async_bind fun _ => .done _
  | stop => exact CallsBack.async_bind (CallsBack.await fun _ h => by cases h) fun _ => .done _
  | tick handle =>
    refine CallsBack.async_bind (CallsBack.await fun _ h => by cases h) fun _ =>
      CallsBack.bind ?_ fun r => ?_
    · exact callsBack_poll.async_bind fun _ => .done _
    · cases r with
      | ok a => exact .done _
      | error e => exact .done _

end CallsBack

/-! ## What leads to an interval -/

/-- A `start` that has found no handle and has not resolved: the call may come to set an interval,
and does not look at the handle before. -/
inductive Starting {α : Type} : Process SchedulerOp SchedulerOp.Answer PollError α → Prop
  | now {next : Except PollError Nat → Process SchedulerOp SchedulerOp.Answer PollError α} :
      Starting (.call .setInterval next)
  | later {op : SchedulerOp}
      {next : Except PollError op.Answer → Process SchedulerOp SchedulerOp.Answer PollError α}
      {a : Except PollError op.Answer} (hop : op ≠ .start) (h : Starting (next a)) :
      Starting (.call op next)

/-- The call sets an interval once at most, and none when it has found a handle. -/
inductive Guarded {α : Type} : Process SchedulerOp SchedulerOp.Answer PollError α → Prop
  | done (a : α) : Guarded (.done a)
  | start {next : Except PollError (Option Nat) →
        Process SchedulerOp SchedulerOp.Answer PollError α}
      (hfound : ∀ stops, ¬ Starting (next (.ok (some stops)))) (h : ∀ a, Guarded (next a)) :
      Guarded (.call .start next)
  | set {next : Except PollError Nat → Process SchedulerOp SchedulerOp.Answer PollError α}
      (hset : ∀ a, ¬ Starting (next a)) (h : ∀ a, Guarded (next a)) :
      Guarded (.call .setInterval next)
  | call {op : SchedulerOp}
      {next : Except PollError op.Answer → Process SchedulerOp SchedulerOp.Answer PollError α}
      (hop : op ≠ .start ∧ op ≠ .setInterval) (h : ∀ a, Guarded (next a)) :
      Guarded (.call op next)

section Guarded

variable {α β : Type} {Q : SchedulerOp → Prop}

theorem onlyCalls_forM {ι : Type} {l : List ι} {f : ι → Task PUnit} (hf : ∀ i, (f i).onlyCalls Q) :
    (l.forM f).onlyCalls Q := by
  induction l with
  | nil => trivial
  | cons i l ih => exact Async.onlyCalls_bind (hf i) fun _ => ih

theorem onlyCalls_poll (hQ : ∀ op : SchedulerOp, op.polls = true → Q op) :
    (poll callbacks).onlyCalls Q :=
  Async.onlyCalls_bind (Async.onlyCalls_await (hQ _ rfl)) fun _ =>
    Async.onlyCalls_bind (onlyCalls_forM fun _ =>
      Async.onlyCalls_bind (Async.onlyCalls_await (hQ _ rfl)) fun _ =>
        onlyCalls_forM fun _ => Async.onlyCalls_await (hQ _ rfl)) fun _ => Async.onlyCalls_pure

theorem onlyCalls_tick {handle : Nat} (hQ : ∀ op : SchedulerOp, op.polls = true → Q op)
    (htick : Q (.tick handle)) : (tick callbacks handle).onlyCalls Q :=
  Async.onlyCalls_bind (Async.onlyCalls_await htick) fun _ =>
    Async.onlyCalls_tryCatch
      (Async.onlyCalls_bind (onlyCalls_poll hQ) fun _ => Async.onlyCalls_pure) fun _ =>
        Async.onlyCalls_pure

/-- It neither looks at the handle nor sets an interval. -/
abbrev SchedulerOp.Leaves (op : SchedulerOp) : Prop := op ≠ start ∧ op ≠ setInterval

theorem SchedulerOp.leaves_of_polls {op : SchedulerOp} (h : op.polls = true) : op.Leaves := by
  constructor
  · rintro rfl
    cases h
  · rintro rfl
    cases h

theorem not_starting_of_onlyCalls {p : Process SchedulerOp SchedulerOp.Answer PollError α}
    (hp : p.onlyCalls SchedulerOp.Leaves) : ¬ Starting p := by
  intro h
  induction h with
  | now => exact hp.1.2 rfl
  | later _ _ ih => exact ih (hp.2 _)

theorem not_starting_start {next : Except PollError (Option Nat) →
    Process SchedulerOp SchedulerOp.Answer PollError α} : ¬ Starting (.call .start next) := by
  intro h
  cases h with
  | later hop _ => exact hop rfl

theorem guarded_bind {p : Process SchedulerOp SchedulerOp.Answer PollError α}
    {f : α → Process SchedulerOp SchedulerOp.Answer PollError β}
    (hp : p.onlyCalls SchedulerOp.Leaves) (hf : ∀ a, Guarded (f a)) : Guarded (p >>= f) := by
  induction p with
  | done a => exact hf a
  | call op next ih => exact .call hp.1 fun a => ih a (hp.2 a)

theorem guarded_of_onlyCalls {p : Process SchedulerOp SchedulerOp.Answer PollError α}
    (hp : p.onlyCalls SchedulerOp.Leaves) : Guarded p := by
  induction p with
  | done a => exact .done a
  | call op next ih => exact .call hp.1 fun a => ih a (hp.2 a)

theorem onlyCalls_tick_leaves {handle : Nat} :
    (tick callbacks handle).onlyCalls SchedulerOp.Leaves :=
  onlyCalls_tick (fun _ => SchedulerOp.leaves_of_polls) ⟨nofun, nofun⟩

theorem onlyCalls_stop_leaves : stop.onlyCalls SchedulerOp.Leaves :=
  Async.onlyCalls_bind (Async.onlyCalls_await ⟨nofun, nofun⟩) fun _ => Async.onlyCalls_pure

theorem guarded_program (call : SchedulerCall) : Guarded (call.program callbacks) := by
  cases call with
  | start =>
    have hpoll : Guarded (poll callbacks >>= fun due => do
        let stops ← await .setInterval
        return Reply.started stops due).run := by
      refine guarded_bind (onlyCalls_poll fun _ => SchedulerOp.leaves_of_polls) fun r => ?_
      cases r with
      | error e => exact .done _
      | ok due =>
        refine .set (fun a => ?_) fun a => ?_
        · cases a <;> exact nofun
        · cases a <;> exact .done _
    refine .start (fun stops => nofun) fun a => ?_
    rcases a with e | (_ | stops)
    · exact .done _
    · exact hpoll
    · exact .done _
  | stop => exact guarded_of_onlyCalls onlyCalls_stop_leaves
  | tick handle => exact guarded_of_onlyCalls onlyCalls_tick_leaves

theorem not_starting_program (call : SchedulerCall) : ¬ Starting (call.program callbacks) := by
  cases call with
  | start => exact not_starting_start
  | stop => exact not_starting_of_onlyCalls onlyCalls_stop_leaves
  | tick handle => exact not_starting_of_onlyCalls onlyCalls_tick_leaves

end Guarded

/-! ## Orderly use -/

/-- `start` is called only when no other `start` is under way, and `stop` only when no poll is
running and no `start` is under way; and the store says so when it has deleted a timer. -/
structure Orderly (w w' : Schedule) : Prop where
  start : w.state.starts < w'.state.starts → ∀ p ∈ w.processes, ¬ Starting p
  stop : w.state.stops < w'.state.stops → ¬ w.Busy
  delete : w'.state.lost = w.state.lost

/-- One interval at most, and nothing under way once `stop` has resolved; a `start` that has
resolved without a later `stop` has left an interval; and what a poll finds, or takes away, is
fired. -/
structure Lifecycle (callbacks : Nat) (w : Schedule) : Prop where
  one : w.state.intervals.length ≤ 1
  quiet : w.state.stopped = true → w.state.intervals = [] ∧
    ∀ p ∈ w.processes, ∀ op, current p = some op → op.polls = false
  polling : ∀ stops due, .done (.ok (.started stops due)) ∈ w.processes → w.state.stops = stops →
    w.state.intervals ≠ []
  found : ∀ due, (.done (.ok (.polled due)) ∈ w.processes ∨
    ∃ stops, .done (.ok (.started stops due)) ∈ w.processes) →
    w.state.Fired callbacks due
  taken : 0 < callbacks → ∀ timer ∈ w.state.taken,
    (0, timer) ∈ w.state.fired ∨ ∃ p ∈ w.processes, current p = some (.callback 0 timer)
  lost : w.state.lost = []

/-- No two calls of `start` are under way, and none while there is an interval. -/
structure Schedule.Started (w : Schedule) : Prop where
  guarded : ∀ p ∈ w.processes, Guarded p
  alone : ∀ (i j : Nat) (p q : SchedulerProcess), w.processes[i]? = some p →
    w.processes[j]? = some q → Starting p → Starting q → i = j
  free : ∀ p ∈ w.processes, Starting p → w.state.intervals = []

structure Schedule.Kept (callbacks : Nat) (w : Schedule) : Prop where
  interval : w.state.intervals = w.state.intervalHandle.toList
  started : w.Started
  quiet : w.state.stopped = true → w.state.intervals = [] ∧
    ∀ p ∈ w.processes, ∀ op, current p = some op → op.underWay = false
  taken : 0 < callbacks → ∀ timer ∈ w.state.taken,
    (0, timer) ∈ w.state.fired ∨ ∃ p ∈ w.processes, current p = some (.callback 0 timer)
  lost : w.state.lost = []
  callsBack : ∀ p ∈ w.processes, CallsBack callbacks p
  stops : ∀ p ∈ w.processes, p.onlyCalls (· ≠ .stop) ∨ p = stop.run

section Step

variable {w : Schedule} {i : Nat} {op : SchedulerOp}
    {next : Except PollError op.Answer → SchedulerProcess}
  {a : Except PollError op.Answer}

theorem cleared (h : s.intervals = s.intervalHandle.toList) :
    s.intervals.filter (some · ≠ s.intervalHandle) = [] := by
  rw [h]
  cases s.intervalHandle <;> simp

theorem interval_call (hs : s.intervals = s.intervalHandle.toList) (h : (s', a) ∈ s.outcomes op)
    (hset : op = .setInterval → s.intervals = []) :
    s'.intervals = s'.intervalHandle.toList := by
  cases does_of_mem h with
  | starts => exact hs
  | finds a => exact hs
  | takes timer => exact hs
  | fails timer => exact hs
  | loses timer => exact hs
  | fires k timer a => exact hs
  | ticks hhandle => exact hs
  | stops => exact cleared hs
  | sets =>
    show s.intervals ++ [s.handles] = [s.handles]
    rw [hset rfl]
    rfl

theorem Schedule.Kept.sound (hw : w.Kept callbacks) : w.state.Sound := by
  intro handle hhandle
  rw [hw.interval, hhandle]
  exact List.mem_singleton_self _

/-- Once `stop` has been called, its call has resolved. -/
theorem current_of_stop {next : Except PollError Unit → SchedulerProcess}
    {a : Except PollError Unit}
    (h : Process.onlyCalls (· ≠ .stop) (.call .stop next : SchedulerProcess) ∨
    .call .stop next = stop.run) :
    current (next a) = none := by
  rcases h with h | h
  · exact absurd rfl h.1
  · cases h
    cases a <;> rfl

theorem Schedule.Kept.quiet_call (hw : w.Kept callbacks)
    (hi : w.processes[i]? = some (.call op next)) (h : (s', a) ∈ w.state.outcomes op)
    (hK : Orderly w ⟨s', w.processes.set i (next a)⟩) (hstopped : s'.stopped = true) :
    s'.intervals = [] ∧ ∀ p ∈ w.processes.set i (next a), ∀ op, current p = some op →
      op.underWay = false := by
  have hpolls : op.underWay = true → w.state.stopped = true → False := by
    intro hop hst
    have hidle := (hw.quiet hst).2 _ (List.mem_of_getElem? hi) op rfl
    rw [hop] at hidle
    cases hidle
  cases does_of_mem h with
  | starts => cases hstopped
  | stops =>
    have hfree : ¬ w.Busy := hK.stop (Nat.lt_succ_self _)
    refine ⟨cleared hw.interval, fun p hp op hop => ?_⟩
    rcases List.mem_or_eq_of_mem_set hp with hp | rfl
    · by_contra hbusy
      exact hfree (List.any_eq_true.2 ⟨p, hp, by rw [hop]; simpa using hbusy⟩)
    · rw [current_of_stop (hw.stops _ (List.mem_of_getElem? hi))] at hop
      cases hop
  | ticks hhandle =>
    rw [(hw.quiet hstopped).1] at hhandle
    cases hhandle
  | finds a => exact (hpolls rfl hstopped).elim
  | takes timer => exact (hpolls rfl hstopped).elim
  | fails timer => exact (hpolls rfl hstopped).elim
  | loses timer => exact (hpolls rfl hstopped).elim
  | fires k timer a => exact (hpolls rfl hstopped).elim
  | sets => exact (hpolls rfl hstopped).elim

/-- The timers that have been taken, and the callback that has been called. -/
theorem taken_outcomes (h : (s', a) ∈ s.outcomes op) :
    (∀ timer ∈ s'.taken, timer ∈ s.taken ∨ op = .deleteTimer timer ∧
    HEq a (.ok () : Except PollError Unit)) ∧
      ∀ k timer, op = .callback k timer → (k, timer) ∈ s'.fired := by
  cases does_of_mem h with
  | takes timer =>
    refine ⟨fun t ht => ?_, fun k t hop => by cases hop⟩
    rcases List.mem_append.1 ht with ht | ht
    · exact .inl ht
    · rw [List.mem_singleton.1 ht]
      exact .inr ⟨rfl, HEq.rfl⟩
  | fires k timer a =>
    refine ⟨fun t ht => .inl ht, fun k' t hop => ?_⟩
    cases hop
    exact List.mem_append_right _ (List.mem_singleton_self _)
  | starts => exact ⟨fun t ht => .inl ht, nofun⟩
  | finds a => exact ⟨fun t ht => .inl ht, nofun⟩
  | fails timer => exact ⟨fun t ht => .inl ht, nofun⟩
  | loses timer => exact ⟨fun t ht => .inl ht, nofun⟩
  | sets => exact ⟨fun t ht => .inl ht, nofun⟩
  | stops => exact ⟨fun t ht => .inl ht, nofun⟩
  | ticks hhandle => exact ⟨fun t ht => .inl ht, nofun⟩

theorem Schedule.Kept.taken_call (hw : w.Kept callbacks)
    (hi : w.processes[i]? = some (.call op next)) (h : (s', a) ∈ w.state.outcomes op)
    (hpos : 0 < callbacks) (timer : ScheduledTimer) (ht : timer ∈ s'.taken) :
    (0, timer) ∈ s'.fired ∨ ∃ p ∈ w.processes.set i (next a),
    current p = some (.callback 0 timer) := by
  have hlt : i < w.processes.length := (List.getElem?_eq_some_iff.1 hi).1
  have hnext : next a ∈ w.processes.set i (next a) := List.mem_set hlt _
  obtain ⟨htaken, hcalled⟩ := taken_outcomes h
  rcases htaken timer ht with hold | ⟨rfl, ha⟩
  · rcases hw.taken hpos timer hold with hfired | ⟨p, hp, hcurrent⟩
    · exact .inl ((outcomes_follows hw.sound h).2.fired hfired)
    · obtain ⟨j, hj⟩ := List.mem_iff_getElem?.1 hp
      by_cases hij : j = i
      · subst hij
        rw [hi] at hj
        cases hj
        exact .inl (hcalled 0 timer (Option.some.inj hcurrent))
      · refine .inr ⟨p, List.mem_iff_getElem?.2 ⟨j, ?_⟩, hcurrent⟩
        rw [List.getElem?_set_ne (Ne.symm hij)]
        exact hj
  · cases eq_of_heq ha
    cases hw.callsBack _ (List.mem_of_getElem? hi) with
    | call hop _ => exact absurd rfl (hop timer)
    | delete hfirst _ =>
      obtain ⟨rest, hrest⟩ := hfirst hpos
      exact .inr ⟨next (.ok ()), hnext, by rw [hrest]; rfl⟩

theorem CallsBack.after (h : CallsBack callbacks (.call op next)) (a : Except PollError op.Answer) :
    CallsBack callbacks (next a) := by
  cases h with
  | call _ h => exact h a
  | delete _ h => exact h a

theorem current_program (callbacks : Nat) (call : SchedulerCall) :
    ∃ op, current (call.program callbacks) = some op ∧ op.underWay = false := by
  cases call with
  | start => exact ⟨.start, rfl, rfl⟩
  | stop => exact ⟨.stop, rfl, rfl⟩
  | tick handle => exact ⟨.tick handle, rfl, rfl⟩

theorem SchedulerOp.ne_stop_of_polls {op : SchedulerOp} (h : op.polls = true) : op ≠ stop := by
  rintro rfl
  cases h

theorem stops_program (call : SchedulerCall) :
    (call.program callbacks).onlyCalls (· ≠ .stop) ∨ call.program callbacks = stop.run := by
  cases call with
  | start =>
    refine .inl (Async.onlyCalls_bind (Async.onlyCalls_await nofun) fun stops => ?_)
    cases stops with
    | some stops => exact Async.onlyCalls_pure
    | none =>
      exact Async.onlyCalls_bind (onlyCalls_poll fun _ => SchedulerOp.ne_stop_of_polls) fun _ =>
        Async.onlyCalls_bind (Async.onlyCalls_await nofun) fun _ => Async.onlyCalls_pure
  | stop => exact .inr rfl
  | tick handle => exact .inl (onlyCalls_tick (fun _ => SchedulerOp.ne_stop_of_polls) nofun)

theorem stops_after (h : Process.onlyCalls (· ≠ .stop) (.call op next : SchedulerProcess) ∨
    .call op next = stop.run) :
    (next a).onlyCalls (· ≠ .stop) ∨ next a = stop.run := by
  rcases h with h | h
  · exact .inl (h.2 a)
  · cases h
    refine .inl ?_
    cases a <;> trivial

/-- The processes after a call are those before it, the caller apart. -/
theorem process_call {j : Nat} {q p' : SchedulerProcess}
    (hj : (w.processes.set i p')[j]? = some q) :
    j = i ∧ q = p' ∨ j ≠ i ∧ w.processes[j]? = some q := by
  by_cases hij : j = i
  · subst hij
    have hlt := (List.getElem?_eq_some_iff.1 hj).1
    rw [List.length_set] at hlt
    rw [List.getElem?_set_self hlt] at hj
    exact .inl ⟨rfl, (Option.some.inj hj).symm⟩
  · rw [List.getElem?_set_ne (Ne.symm hij)] at hj
    exact .inr ⟨hij, hj⟩

theorem Schedule.Started.guarded_call (hw : w.Started)
    (hi : w.processes[i]? = some (.call op next)) :
    ∀ p ∈ w.processes.set i (next a), Guarded p := by
  intro p hp
  rcases List.mem_or_eq_of_mem_set hp with hp | rfl
  · exact hw.guarded p hp
  · cases hw.guarded _ (List.mem_of_getElem? hi) with
    | start _ hnext => exact hnext a
    | set _ hnext => exact hnext a
    | call _ hnext => exact hnext a

/-- An operation that neither looks at the handle nor sets an interval makes none. -/
theorem no_intervals (hop : op.Leaves) (h : (s', a) ∈ s.outcomes op) (hs : s.intervals = []) :
    s'.intervals = [] := by
  cases does_of_mem h with
  | finds a => exact hs
  | takes timer => exact hs
  | fails timer => exact hs
  | loses timer => exact hs
  | fires k timer a => exact hs
  | ticks hhandle => exact hs
  | stops =>
    show s.intervals.filter _ = []
    rw [hs, List.filter_nil]
  | starts => exact absurd rfl hop.1
  | sets => exact absurd rfl hop.2

/-- A call of `start` that finds no handle is the only one under way; one that sets its interval is
over; and any other operation leaves those under way. -/
theorem Schedule.Started.call (hw : w.Started)
    (hinterval : w.state.intervals = w.state.intervalHandle.toList)
    (hi : w.processes[i]? = some (.call op next)) (h : (s', a) ∈ w.state.outcomes op)
    (hK : w.state.starts < s'.starts → ∀ p ∈ w.processes, ¬ Starting p) :
    Schedule.Started ⟨s', w.processes.set i (next a)⟩ := by
  have hcaller := List.mem_of_getElem? hi
  have hguarded := hw.guarded_call (a := a) hi
  cases hw.guarded _ hcaller with
  | @start next hfound _ =>
    obtain ⟨ha, hsame, hstarts⟩ : a = .ok (w.state.intervalHandle.map fun _ => w.state.stops) ∧
        s'.intervals = w.state.intervals ∧ w.state.starts < s'.starts := by
      cases does_of_mem h
      exact ⟨rfl, rfl, Nat.lt_succ_self _⟩
    have hnone := hK hstarts
    -- no other call is under way
    have honly : ∀ (j : Nat) (q : SchedulerProcess), (w.processes.set i (next a))[j]? = some q →
        Starting q → j = i ∧ q = next a := fun j q hj hq =>
      (process_call hj).resolve_right fun hother => hnone q (List.mem_of_getElem? hother.2) hq
    refine ⟨hguarded, fun j k p q hj hk hp hq => ?_, fun p hp hstarting => ?_⟩
    · rw [(honly j p hj hp).1, (honly k q hk hq).1]
    · obtain ⟨j, hj⟩ := List.mem_iff_getElem?.1 hp
      obtain ⟨-, rfl⟩ := honly j p hj hstarting
      show s'.intervals = []
      cases hhandle : w.state.intervalHandle with
      | none => rw [hsame, hinterval, hhandle, Option.toList_none]
      | some handle =>
        rw [ha, hhandle] at hstarting
        exact absurd hstarting (hfound _)
  | @set next hset _ =>
    -- its call was the only one under way
    have hnone : ∀ p ∈ w.processes.set i (next a), ¬ Starting p := by
      intro p hp hstarting
      obtain ⟨j, hj⟩ := List.mem_iff_getElem?.1 hp
      rcases process_call hj with ⟨-, rfl⟩ | ⟨hne, hj⟩
      · exact hset a hstarting
      · exact hne (hw.alone j i p _ hj hi hstarting .now)
    exact ⟨hguarded, fun j k p q hj hk hp _ => absurd hp (hnone p (List.mem_of_getElem? hj)),
      fun p hp hstarting => absurd hstarting (hnone p hp)⟩
  | call hop _ =>
    have hbefore : ∀ (j : Nat) (q : SchedulerProcess), (w.processes.set i (next a))[j]? = some q →
        Starting q → ∃ p, w.processes[j]? = some p ∧ Starting p := by
      intro j q hj hq
      rcases process_call hj with ⟨rfl, rfl⟩ | ⟨-, hj⟩
      · exact ⟨_, hi, .later hop.1 hq⟩
      · exact ⟨q, hj, hq⟩
    refine ⟨hguarded, fun j k p q hj hk hp hq => ?_, fun p hp hstarting => ?_⟩
    · obtain ⟨p', hj', hp'⟩ := hbefore j p hj hp
      obtain ⟨q', hk', hq'⟩ := hbefore k q hk hq
      exact hw.alone j k p' q' hj' hk' hp' hq'
    · obtain ⟨j, hj⟩ := List.mem_iff_getElem?.1 hp
      obtain ⟨p', hj', hp'⟩ := hbefore j p hj hstarting
      exact no_intervals hop h (hw.free p' (List.mem_of_getElem? hj') hp')

theorem Schedule.Started.start (hw : w.Started) (call : SchedulerCall) :
    Schedule.Started { w with processes := w.processes ++ [call.program callbacks] } := by
  have hbefore : ∀ (j : Nat) (q : SchedulerProcess),
      (w.processes ++ [call.program callbacks])[j]? = some q → Starting q →
        w.processes[j]? = some q := by
    intro j q hj hq
    rw [List.getElem?_append] at hj
    split_ifs at hj
    · exact hj
    · rw [List.mem_singleton.1 (List.mem_of_getElem? hj)] at hq
      exact absurd hq (not_starting_program call)
  refine ⟨fun p hp => ?_, fun j k p q hj hk hp hq => ?_, fun p hp hstarting => ?_⟩
  · rcases List.mem_append.1 hp with hp | hp
    · exact hw.guarded p hp
    · exact List.mem_singleton.1 hp ▸ guarded_program call
  · exact hw.alone j k p q (hbefore j p hj hp) (hbefore k q hk hq) hp hq
  · obtain ⟨j, hj⟩ := List.mem_iff_getElem?.1 hp
    exact hw.free p (List.mem_of_getElem? (hbefore j p hj hstarting)) hstarting

theorem Schedule.Kept.step {w' : Schedule} (hw : w.Kept callbacks)
    (hmove : World.Moves (fun s op => Scheduler.outcomes s op)
    (SchedulerCall.program callbacks) Event.apply
      (fun _ _ => True) w w') (hK : Orderly w w') : w'.Kept callbacks := by
  cases hmove with
  | start call =>
    have hlast : ∀ {P : SchedulerProcess → Prop}, (∀ p ∈ w.processes, P p) →
        P (call.program callbacks) →
        ∀ p ∈ w.processes ++ [call.program callbacks], P p := by
      intro P hold hnew p hp
      rcases List.mem_append.1 hp with hp | hp
      · exact hold p hp
      · exact List.mem_singleton.1 hp ▸ hnew
    refine ⟨hw.interval, hw.started.start call,
      fun hstopped => ⟨(hw.quiet hstopped).1, hlast (hw.quiet hstopped).2 ?_⟩, ?_, hw.lost,
      hlast hw.callsBack (callsBack_program call), hlast hw.stops (stops_program call)⟩
    · intro op hop
      obtain ⟨op', hop', hidle⟩ := current_program callbacks call
      rw [hop'] at hop
      cases hop
      exact hidle
    · intro hpos timer htimer
      rcases hw.taken hpos timer htimer with hfired | ⟨p, hp, hcurrent⟩
      · exact .inl hfired
      · exact .inr ⟨p, List.mem_append_left _ hp, hcurrent⟩
  | @call i op next s a hi hmem _ =>
    have hset : op = .setInterval → w.state.intervals = [] := by
      rintro rfl
      exact hw.started.free _ (List.mem_of_getElem? hi) .now
    refine ⟨interval_call hw.interval hmem hset, hw.started.call hw.interval hi hmem hK.start,
      hw.quiet_call hi hmem hK, hw.taken_call hi hmem, hK.delete.trans hw.lost, fun p hp => ?_,
      fun p hp => ?_⟩
    · rcases List.mem_or_eq_of_mem_set hp with hp | rfl
      · exact hw.callsBack p hp
      · exact (hw.callsBack _ (List.mem_of_getElem? hi)).after a
    · rcases List.mem_or_eq_of_mem_set hp with hp | rfl
      · exact hw.stops p hp
      · exact stops_after (hw.stops _ (List.mem_of_getElem? hi))
  | tick e =>
    have hsame : (e.apply w.state).intervalHandle = w.state.intervalHandle ∧
        (e.apply w.state).intervals = w.state.intervals ∧
          (e.apply w.state).stopped = w.state.stopped ∧
        (e.apply w.state).taken = w.state.taken ∧ (e.apply w.state).fired = w.state.fired := by
      cases e <;> exact ⟨rfl, rfl, rfl, rfl, rfl⟩
    obtain ⟨hhandle, hintervals, hstopped, htaken, hfired⟩ := hsame
    refine ⟨?_, ⟨hw.started.guarded, hw.started.alone, fun p hp hstarting => ?_⟩, fun h => ?_,
      fun hpos => ?_, hK.delete.trans hw.lost, hw.callsBack, hw.stops⟩
    · show (e.apply w.state).intervals = (e.apply w.state).intervalHandle.toList
      rw [hhandle, hintervals]
      exact hw.interval
    · exact hintervals.trans (hw.started.free p hp hstarting)
    · rw [hintervals]
      exact hw.quiet (hstopped ▸ h)
    · rw [htaken, hfired]
      exact hw.taken hpos

end Step

/-! ## Runs -/

/-- Any run. -/
abbrev Schedule.Leads (callbacks : Nat) : Schedule → Schedule → Prop :=
  World.Leads (fun s op => Scheduler.outcomes s op) (SchedulerCall.program callbacks) Event.apply
    fun _ _ => True

/-- A run in which every step is orderly. -/
abbrev Schedule.LeadsBy (callbacks : Nat) : Schedule → Schedule → Prop :=
  World.LeadsBy (fun s op => Scheduler.outcomes s op)
    (SchedulerCall.program callbacks) Event.apply Orderly

/-- A scheduler that has been constructed, with timers in its store. -/
def constructed (timers : KeyedMap ScheduledTimer.id) (now : Time) : Schedule :=
  ⟨{ timers, now }, []⟩

theorem Schedule.Leads.holds {timers : KeyedMap ScheduledTimer.id} {now : Time} {w : Schedule}
    (hw : Schedule.Leads callbacks (constructed timers now) w) {r : Except PollError Reply}
    (hr : .done r ∈ w.processes) : Holds callbacks w.state r := by
  have hinit : Scheduler.Sound { timers, now } := fun handle hhandle => by cases hhandle
  obtain ⟨-, -, hprocesses⟩ :=
    World.Leads.withstand hw (fun _ => .refl) (fun _ _ _ h h' => h.trans h')
    (fun _ _ _ h hf => h.follows hf) (fun call _ _ => withstands_program call)
    (fun _ _ hsound => event_follows hsound) hinit (fun p hp => absurd hp List.not_mem_nil)
  exact hprocesses _ hr

/-- In every orderly run of any calls of `start` and `stop`, polls and failures. -/
theorem scheduler_lifecycle {timers : KeyedMap ScheduledTimer.id} {now : Time} {w : Schedule}
    (hw : Schedule.LeadsBy callbacks (constructed timers now) w) : Lifecycle callbacks w := by
  have hinit : (constructed timers now).Kept callbacks := by
    refine ⟨rfl, ⟨fun _ h => ?_, fun _ _ _ _ h => ?_, fun _ h => ?_⟩, fun h => ?_, fun _ _ h => ?_,
      rfl, fun _ h => ?_, fun _ h => ?_⟩ <;> cases h
  have hkept : w.Kept callbacks := World.LeadsBy.keeps hw hinit fun _ _ h hmove hK =>
      h.step hmove hK
  have hleads : Schedule.Leads callbacks (constructed timers now) w := World.LeadsBy.leads hw
  refine ⟨?_, fun hstopped => ?_, fun stops due hr => ?_, fun due hr => ?_, hkept.taken, hkept.lost⟩
  · rw [hkept.interval]
    cases w.state.intervalHandle <;> simp
  · obtain ⟨hintervals, hidle⟩ := hkept.quiet hstopped
    refine ⟨hintervals, fun p hp op hop => ?_⟩
    exact (Bool.or_eq_false_iff.1 (hidle p hp op hop)).1
  · exact (hleads.holds hr).2.1
  · rcases hr with hr | ⟨stops, hr⟩
    · exact hleads.holds hr
    · exact (hleads.holds hr).2.2

def reminder : ScheduledTimer :=
  { id := 1, instanceId := 1, tokenId := 1, fireAt := 3, createdAt := 0 }

/-- `start` is called when every other call has resolved, or has not begun. -/
def Tidy (w w' : Schedule) : Prop :=
  (w.state.starts < w'.state.starts →
    ∀ p ∈ w.processes, (current p).all (fun op => op matches .start) = true) ∧
  (w.state.stops < w'.state.stops → ¬ w.Busy) ∧ w'.state.lost = w.state.lost

instance (w w' : Schedule) : Decidable (Tidy w w') := inferInstanceAs (Decidable (_ ∧ _))

theorem Tidy.orderly {w w' : Schedule} (h : Tidy w w') : Orderly w w' := by
  refine ⟨fun hstart p hp hstarting => ?_, h.2.1, h.2.2⟩
  have hidle := h.1 hstart p hp
  cases p with
  | done r => cases hstarting
  | call op next =>
    cases op with
    | start => exact not_starting_start hstarting
    | getDueTimers => cases hidle
    | deleteTimer timer => cases hidle
    | callback k timer => cases hidle
    | setInterval => cases hidle
    | stop => cases hidle
    | tick handle => cases hidle

/-- A timer that is due when the scheduler starts is fired, an interval polls again, and the
scheduler is stopped; then it is started anew. -/
theorem scheduler_lifecycle_reminder :
    ∃ w : Schedule, w.state.fired = [(0, reminder)] ∧ w.state.intervals = [1] ∧ Lifecycle 1 w := by
  have hrun : ((constructed (KeyedMap.ofList [reminder]) 5).playsBy
      (fun s op => Scheduler.outcomes s op) (SchedulerCall.program 1) Event.apply Tidy
      ([.start .start] ++ List.replicate 5 (.call 0 0) ++
        [.start (.tick 0), .call 1 0, .call 1 0, .start .stop, .call 2 0] ++
        [.start .start] ++ List.replicate 3 (.call 3 0))).any
      (fun w => w.state.fired = [(0, reminder)] ∧ w.state.intervals = [1]) = true := by
    decide +kernel
  obtain ⟨w, hplay, hw⟩ := (Option.any_eq_true ..).1 hrun
  obtain ⟨hfired, hintervals⟩ := of_decide_eq_true hw
  exact ⟨w, hfired, hintervals,
    scheduler_lifecycle (.mono (fun _ _ => Tidy.orderly) (.of_playsBy hplay))⟩

/-- `start` is called twice at once. -/
theorem not_scheduler_lifecycle :
    ¬ ∀ (callbacks : Nat) (timers : KeyedMap ScheduledTimer.id) (now : Time) (w : Schedule),
      Schedule.Leads callbacks (constructed timers now) w → Lifecycle callbacks w := by
  intro h
  have hrun : ((constructed ∅ 0).plays (fun s op => Scheduler.outcomes s op)
      (SchedulerCall.program 1) Event.apply
      (fun _ _ => True) [.start .start, .start .start, .call 0 0, .call 1 0, .call 0 0, .call 1 0,
        .call 0 0,
        .call 1 0]).any (fun w => w.state.intervals = [0, 1]) = true := by
    decide +kernel
  obtain ⟨w, hplay, hintervals⟩ := (Option.any_eq_true ..).1 hrun
  have hone := (h 1 ∅ 0 w (.of_plays hplay)).one
  rw [of_decide_eq_true hintervals] at hone
  exact absurd hone (by decide)

end NexusWorkflow.Scheduling
