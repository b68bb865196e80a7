import NexusWorkflow.Lib.Indexed
import NexusWorkflow.Model.InMemoryScheduler

/-!
# Timers fire in time

In every run in which no delay is too long for the host, and no timeout that is left over from an
earlier schedule or start finds its timer stored when it must not fire: a timer fires only while it
is scheduled and due and the scheduler is running, and while the scheduler runs, a timeout that is
due at the latest a millisecond after it was set, or after the timer is due, will fire it.
-/

namespace NexusWorkflow.Timeouts

open Scheduling (ScheduledTimer)

variable {s s' : InMemoryScheduler}

/-! ## What is promised -/

/-- When the timer is to fire, if it has been scheduled and has not been cancelled and has not fired
since. -/
def standing (timerId : Nat) : List Event → Option Time
  | [] => none
  | .scheduled id fireAt :: log => if id = timerId then some fireAt else standing timerId log
  | .cancelled id :: log => if id = timerId then none else standing timerId log
  | .fired id _ :: log => if id = timerId then none else standing timerId log
  | .started :: log | .stopped :: log => standing timerId log

/-- The scheduler has been started, and not stopped since. -/
def runningIn : List Event → Bool
  | [] => false
  | .started :: _ => true
  | .stopped :: _ => false
  | .scheduled _ _ :: log | .cancelled _ :: log | .fired _ _ :: log => runningIn log

/-- Whatever has fired was to fire then. -/
def Lawful : List Event → Prop
  | [] => True
  | .fired id now :: log =>
    runningIn log = true ∧ (∃ fireAt, standing id log = some fireAt ∧ fireAt ≤ now) ∧ Lawful log
  | _ :: log => Lawful log

structure Timely (s : InMemoryScheduler) : Prop where
  lawful : Lawful s.log
  fires : runningIn s.log = true → ∀ id fireAt, standing id s.log = some fireAt →
    ∃ k t, s.timeouts[k]? = some t ∧
    t.timer.id = id ∧ t.due = max fireAt (t.armedAt + 1) ∧
      (t.due ≤ s.now → ∃ s', s.step (.timeout k) = some s' ∧ s'.log = .fired id s.now :: s.log)

/-- The delay is one that the host can represent. -/
def InMemoryScheduler.Representable (s : InMemoryScheduler) (timer : ScheduledTimer) : Prop :=
  timer.fireAt - s.now ≤ timeoutMax

/-- No timeout is too long, and none that is left over does harm. -/
def Tidy (s : InMemoryScheduler) : Happening → Prop
  | .schedule timer => s.running = true → s.Representable timer
  | .start => ∀ timer ∈ s.timers.values, s.Representable timer
  | .timeout k => ∀ t ∈ s.timeouts[k]?,
      s.timeoutHandles.get? t.timer.id ≠ some (t.timer.id, t.handle) →
    ∀ timer ∈ s.timers.get? t.timer.id, s.running = true ∧ timer.fireAt ≤ s.now
  | .cancel _ | .stop | .advance _ => True

instance (timer : ScheduledTimer) : Decidable (s.Representable timer) :=
  inferInstanceAs (Decidable (_ ≤ _))

instance decidableTidy (s : InMemoryScheduler) : (h : Happening) → Decidable (Tidy s h)
  | .schedule timer => inferInstanceAs (Decidable (s.running = true → s.Representable timer))
  | .start => inferInstanceAs (Decidable (∀ timer ∈ s.timers.values, s.Representable timer))
  | .timeout k => inferInstanceAs (Decidable (∀ t ∈ s.timeouts[k]?,
      s.timeoutHandles.get? t.timer.id ≠ some (t.timer.id, t.handle) →
        ∀ timer ∈ s.timers.get? t.timer.id, s.running = true ∧ timer.fireAt ≤ s.now))
  | .cancel _ | .stop | .advance _ => isTrue trivial

/-! ## The invariant -/

/-- The timeout in the map of the handles is one for the timer as it is stored. -/
def InMemoryScheduler.Armed (s : InMemoryScheduler) (id handle : Nat) : Prop :=
  s.running = true ∧ ∃ t ∈ s.timeouts, t.handle = handle ∧ s.timers.get? id = some t.timer ∧
    t.due = max t.timer.fireAt (t.armedAt + 1)

/-- The handles of some timers may be stale, and those of some may be missing. -/
structure KeptBut (stale missing : Nat → Prop) (s : InMemoryScheduler) : Prop where
  handle_lt : ∀ t ∈ s.timeouts, t.handle < s.handles
  distinct : (s.timeouts.map (·.handle)).Nodup
  armed : ∀ id handle, ¬ stale id → s.timeoutHandles.get? id = some (id, handle) → s.Armed id handle
  all_armed : s.running = true → ∀ timer ∈ s.timers.values, ¬ missing timer.id →
    ∃ handle, s.timeoutHandles.get? timer.id = some (timer.id, handle)
  standing : ∀ id, standing id s.log = (s.timers.get? id).map (·.fireAt)
  running : runningIn s.log = s.running
  lawful : Lawful s.log

abbrev Kept (s : InMemoryScheduler) : Prop := KeptBut (fun _ => False) (fun _ => False) s

theorem add_hostDelay {fireAt now : Int} (h : fireAt - now ≤ timeoutMax) :
    now + hostDelay (max 0 (fireAt - now)) = max fireAt (now + 1) := by
  unfold timeoutMax at h
  unfold hostDelay timeoutMax
  split_ifs <;> omega

namespace KeptBut

variable {stale missing stale' missing' : Nat → Prop}

theorem mono (h : KeptBut stale missing s) (hstale : ∀ id, stale id → stale' id)
    (hmissing : ∀ timer ∈ s.timers.values, missing timer.id → missing' timer.id) :
    KeptBut stale' missing' s :=
  ⟨h.handle_lt, h.distinct, fun id handle hid => h.armed id handle fun hs => hid (hstale id hs),
    fun hrunning timer ht hid => h.all_armed hrunning timer ht fun hm =>
      hid (hmissing timer ht hm), h.standing, h.running,
    h.lawful⟩

/-- A timer that is stored gets a timeout, which takes the place of the one before. -/
theorem armTimeout (h : KeptBut stale missing s) {timer : ScheduledTimer}
    (hrunning : s.running = true) (hrepresentable : s.Representable timer)
    (hstored : s.timers.get? timer.id = some timer) :
    KeptBut (fun id => stale id ∧ timer.id ≠ id) (fun id => missing id ∧ timer.id ≠ id)
      (s.armTimeout timer) := by
  have hget : (s.armTimeout timer).timeoutHandles.get? timer.id = some (timer.id, s.handles) :=
    KeyedMap.get?_set_self _ (timer.id, s.handles)
  have hother : ∀ id, timer.id ≠ id →
      (s.armTimeout timer).timeoutHandles.get? id = s.timeoutHandles.get? id :=
    fun id hid => KeyedMap.get?_set_of_ne _ hid
  refine ⟨fun t ht => ?_, ?_, fun id handle hstale hid => ⟨hrunning, ?_⟩,
    fun _ timer' ht hmissing => ?_, h.standing,
    h.running, h.lawful⟩
  · change t.handle < s.handles + 1
    rcases List.mem_append.1 ht with ht | ht
    · exact Nat.lt_succ_of_lt (h.handle_lt t ht)
    · rw [List.mem_singleton.1 ht]
      exact Nat.lt_succ_self _
  · change ((s.timeouts ++ [_]).map fun t : Timeout => t.handle).Nodup
    rw [List.map_append, List.nodup_append]
    refine ⟨h.distinct, List.nodup_singleton _, fun handle hmem handle' hnew => ?_⟩
    obtain ⟨t, ht, rfl⟩ := List.mem_map.1 hmem
    rw [List.mem_singleton.1 hnew]
    exact Nat.ne_of_lt (h.handle_lt t ht)
  · by_cases heq : timer.id = id
    · subst heq
      have hhandle := Option.some.inj (hget.symm.trans hid)
      refine ⟨_, List.mem_append_right _ (List.mem_singleton_self _), (Prod.mk.inj hhandle).2,
        hstored, ?_⟩
      exact add_hostDelay hrepresentable
    · obtain ⟨-, t, ht, hrest⟩ :=
        h.armed id handle (fun hs => hstale ⟨hs, heq⟩) ((hother id heq).symm.trans hid)
      exact ⟨t, List.mem_append_left _ ht, hrest⟩
  · by_cases heq : timer.id = timer'.id
    · exact ⟨s.handles, by rw [← heq]; exact hget⟩
    · rw [hother _ heq]
      exact h.all_armed hrunning timer' ht fun hm => hmissing ⟨hm, heq⟩

theorem foldl_armTimeout {timers : List ScheduledTimer} (hrunning : s.running = true)
    (hrepresentable : ∀ timer ∈ timers, s.Representable timer)
    (hstored : ∀ timer ∈ timers, s.timers.get? timer.id = some timer)
    (h : KeptBut stale missing s) :
    KeptBut stale (fun id => missing id ∧ ∀ timer ∈ timers, timer.id ≠ id)
      (timers.foldl InMemoryScheduler.armTimeout s) := by
  induction timers generalizing s missing with
  | nil => exact h.mono (fun _ => id) fun _ _ hm => ⟨hm, nofun⟩
  | cons timer rest ih =>
    have harmed : KeptBut stale (fun id => missing id ∧ timer.id ≠ id) (s.armTimeout timer) :=
      (h.armTimeout hrunning (hrepresentable timer List.mem_cons_self)
        (hstored timer List.mem_cons_self)).mono
        (fun _ hs => hs.1) fun _ _ hm => hm
    have hrest := ih (s := s.armTimeout timer) hrunning
        (fun t ht => hrepresentable t (List.mem_cons_of_mem _ ht))
      (fun t ht => hstored t (List.mem_cons_of_mem _ ht)) harmed
    refine hrest.mono (fun _ => id) fun t _ hm => ⟨hm.1.1, fun t' ht' => ?_⟩
    rcases List.mem_cons.1 ht' with rfl | ht'
    · exact hm.1.2
    · exact hm.2 t' ht'

end KeptBut

namespace Kept

/-- While the scheduler is stopped, it has no handles. -/
theorem no_handles (h : Kept s) (hstopped : s.running = false) (id handle : Nat) :
    s.timeoutHandles.get? id ≠ some (id, handle) := by
  intro hget
  have hrunning := (h.armed id handle (fun hf => hf) hget).1
  rw [hstopped] at hrunning
  cases hrunning

/-- The timeout of a handle is the one of the timer. -/
theorem id_of_handle (h : Kept s) {id handle : Nat}
    (hget : s.timeoutHandles.get? id = some (id, handle)) {t : Timeout} (ht : t ∈ s.timeouts)
    (hhandle : t.handle = handle) : s.running = true ∧ s.timers.get? id = some t.timer ∧
      t.due = max t.timer.fireAt (t.armedAt + 1) := by
  obtain ⟨hrunning, t', ht', hhandle', hstored, hdue⟩ := h.armed id handle (fun hf => hf) hget
  have hsame : t' = t := List.inj_on_of_nodup_map h.distinct ht' ht (hhandle'.trans hhandle.symm)
  rw [← hsame]
  exact ⟨hrunning, hstored, hdue⟩

theorem schedule (h : Kept s) {timer : ScheduledTimer}
    (hrepresentable : s.running = true → s.Representable timer) : Kept (s.schedule timer) := by
  have hself : (s.timers.set timer).get? timer.id = some timer := KeyedMap.get?_set_self _ timer
  have hother : ∀ id, timer.id ≠ id → (s.timers.set timer).get? id = s.timers.get? id :=
    fun id hid => KeyedMap.get?_set_of_ne _ hid
  have hstored : KeptBut (· = timer.id) (· = timer.id)
      ({ s with timers := s.timers.set timer }.note (.scheduled timer.id timer.fireAt)) := by
    refine ⟨h.handle_lt, h.distinct, fun id handle hid hget => ?_, fun hrunning t ht hid => ?_,
      fun id => ?_, h.running,
      h.lawful⟩
    · obtain ⟨hrunning, t, ht, hhandle, hget', hdue⟩ := h.armed id handle (fun hf => hf) hget
      exact ⟨hrunning, t, ht, hhandle, (hother id (Ne.symm hid)).trans hget', hdue⟩
    · refine h.all_armed hrunning t ?_ fun hf => hf
      exact ((KeyedMap.mem_set.1 ht).resolve_left fun heq => hid (by rw [heq])).1
    · change (if timer.id = id then some timer.fireAt else standing id s.log) =
        ((s.timers.set timer).get? id).map _
      by_cases hid : timer.id = id
      · subst hid
        rw [if_pos rfl, hself]
        rfl
      · rw [if_neg hid, hother id hid]
        exact h.standing id
  unfold InMemoryScheduler.schedule
  dsimp only
  split_ifs with hrunning
  · exact (hstored.armTimeout hrunning (hrepresentable hrunning) hself).mono
      (fun _ hs => hs.2 hs.1.symm)
      fun _ _ hm => hm.2 hm.1.symm
  · refine ⟨hstored.handle_lt, hstored.distinct, fun id handle _ hget => ?_,
      fun hrun => absurd hrun hrunning,
      hstored.standing, hstored.running, hstored.lawful⟩
    exact absurd hget (h.no_handles (by simpa using hrunning) id handle)

theorem start (h : Kept s) (hrepresentable : ∀ timer ∈ s.timers.values, s.Representable timer) :
    Kept s.start := by
  have hstarted : KeptBut (fun _ => False) (fun _ => True)
      ({ s with running := true }.note .started) :=
    ⟨h.handle_lt, h.distinct, fun id handle hid hget => ⟨rfl, (h.armed id handle hid hget).2⟩,
      fun _ _ _ hid => absurd trivial hid, h.standing, rfl, h.lawful⟩
  have hkeeps : ∀ (timers : List ScheduledTimer) (s : InMemoryScheduler),
      (timers.foldl InMemoryScheduler.armTimeout s).timers = s.timers := by
    intro timers
    induction timers with
    | nil => exact fun _ => rfl
    | cons timer rest ih => exact fun s => ih (s.armTimeout timer)
  have harmed := KeptBut.foldl_armTimeout
      (s := { s with running := true }.note .started) rfl hrepresentable
    (fun timer ht => KeyedMap.get?_of_mem ht) hstarted
  refine harmed.mono (fun _ => id) fun timer ht hm => hm.2 timer ?_ rfl
  rw [hkeeps] at ht
  exact ht

theorem stop (h : Kept s) : Kept s.stop := by
  refine ⟨fun t ht => h.handle_lt t (List.mem_of_mem_filter ht),
    h.distinct.sublist (List.filter_sublist.map _),
    fun id handle _ hget => ?_, fun hrunning => ?_, h.standing, rfl, h.lawful⟩
  · cases hget
  · cases hrunning

/-- A timer is taken out of the maps, and perhaps its timeout is taken away. -/
theorem remove (h : Kept s) {id : Nat} {timeouts : List Timeout}
    {timeoutHandles : KeyedMap (Prod.fst : Nat × Nat → Nat)} {event : Event}
    (hnone : timeoutHandles.get? id = none)
    (hother : ∀ id', id ≠ id' → timeoutHandles.get? id' = s.timeoutHandles.get? id')
    (hsub : timeouts.Sublist s.timeouts)
    (hrest : ∀ id' handle, id ≠ id' → s.timeoutHandles.get? id' = some (id', handle) →
      ∀ t ∈ s.timeouts, t.handle = handle → t ∈ timeouts)
    (hstanding : ∀ id', Timeouts.standing id' (event :: s.log) =
      if id = id' then none else Timeouts.standing id' s.log)
    (hrunning : runningIn (event :: s.log) = runningIn s.log) (hlawful : Lawful (event :: s.log)) :
    Kept ({ s with timers := s.timers.erase id, timeoutHandles, timeouts }.note event) := by
  refine ⟨fun t ht => h.handle_lt t (hsub.subset ht), h.distinct.sublist (hsub.map _),
    fun id' handle _ hget => ?_,
    fun hrun timer ht _ => ?_, fun id' => ?_, hrunning.trans h.running, hlawful⟩
  · have hid : id ≠ id' := by
      rintro rfl
      rw [show timeoutHandles.get? id = some (id, handle) from hget] at hnone
      cases hnone
    have hold : s.timeoutHandles.get? id' = some (id', handle) := (hother id' hid).symm.trans hget
    obtain ⟨hrun, t, ht, hhandle, hstored, hdue⟩ := h.armed id' handle (fun hf => hf) hold
    exact ⟨hrun, t, hrest id' handle hid hold t ht hhandle, hhandle,
      (KeyedMap.get?_erase_of_ne _ hid).trans hstored, hdue⟩
  · obtain ⟨hmem, hid⟩ := KeyedMap.mem_erase.1 ht
    obtain ⟨handle, hget⟩ := h.all_armed hrun timer hmem fun hf => hf
    exact ⟨handle, (hother _ (Ne.symm hid)).trans hget⟩
  · refine (hstanding id').trans ?_
    by_cases hid : id = id'
    · subst hid
      have hnone' : (s.timers.erase id).get? id = none := KeyedMap.get?_erase_self ..
      rw [if_pos rfl]
      exact (congrArg (Option.map _) hnone').symm
    · rw [if_neg hid]
      exact (h.standing id').trans (congrArg (Option.map _) (KeyedMap.get?_erase_of_ne _ hid).symm)

theorem cancel (h : Kept s) (timerId : Nat) : Kept (s.cancel timerId) := by
  unfold InMemoryScheduler.cancel
  dsimp only
  cases hget : s.timeoutHandles.get? timerId with
  | none =>
    exact h.remove hget (fun _ _ => rfl) (List.Sublist.refl _) (fun _ _ _ _ t ht _ => ht)
      (fun _ => rfl) rfl h.lawful
  | some entry =>
    obtain ⟨id, handle⟩ := entry
    obtain rfl : id = timerId := KeyedMap.key_of_get? hget
    refine h.remove (KeyedMap.get?_erase_self ..)
      (fun id' hid => KeyedMap.get?_erase_of_ne _ hid) List.filter_sublist
      (fun id' handle' hid hget' t ht hhandle' => ?_) (fun _ => rfl) rfl h.lawful
    refine List.mem_filter.2 ⟨ht, ?_⟩
    have hne : t.handle ≠ handle := by
      intro hhandle
      have hstored := (h.id_of_handle hget ht hhandle).2.1
      have hstored' := (h.id_of_handle hget' ht hhandle').2.1
      exact hid ((KeyedMap.key_of_get? hstored).symm.trans (KeyedMap.key_of_get? hstored'))
    simpa using hne

/-- The host runs the callback of a timeout. -/
theorem onTimeout (h : Kept s) {k : Nat} {t : Timeout} (hk : s.timeouts[k]? = some t)
    (hdue : t.due ≤ s.now) (htidy : s.timeoutHandles.get? t.timer.id ≠ some (t.timer.id, t.handle) →
      ∀ timer ∈ s.timers.get? t.timer.id, s.running = true ∧ timer.fireAt ≤ s.now) :
    Kept ({ s with timeouts := s.timeouts.eraseIdx k }.onTimeout t.timer) := by
  have ht : t ∈ s.timeouts := List.mem_of_getElem? hk
  have hrest : ∀ id handle, s.timers.get? t.timer.id = none ∨ t.timer.id ≠ id →
      s.timeoutHandles.get? id = some (id, handle) → ∀ t' ∈ s.timeouts, t'.handle = handle →
        t' ∈ s.timeouts.eraseIdx k := by
    intro id handle hid hget t' ht' hhandle
    refine Indexed.mem_eraseIdx_of_ne hk ht' ?_
    rintro rfl
    have hstored := (h.id_of_handle hget ht' hhandle).2.1
    have hsame : t'.timer.id = id := KeyedMap.key_of_get? hstored
    rcases hid with hid | hid
    · rw [hsame, hstored] at hid
      cases hid
    · exact hid hsame
  unfold InMemoryScheduler.onTimeout
  dsimp only
  cases hget : s.timers.get? t.timer.id with
  | none =>
    refine ⟨fun t' ht' => h.handle_lt t' (List.mem_of_mem_eraseIdx ht'),
      h.distinct.sublist ((List.eraseIdx_sublist ..).map _),
      fun id handle hid hget' => ?_, h.all_armed, h.standing, h.running, h.lawful⟩
    obtain ⟨hrunning, t', ht', hhandle, hstored⟩ := h.armed id handle hid hget'
    exact ⟨hrunning, t', hrest id handle (.inl hget) hget' t' ht' hhandle, hhandle, hstored⟩
  | some timer =>
    have hlegal : s.running = true ∧ timer.fireAt ≤ s.now := by
      by_cases hown : s.timeoutHandles.get? t.timer.id = some (t.timer.id, t.handle)
      · obtain ⟨hrunning, hstored, hdue'⟩ := h.id_of_handle hown ht rfl
        rw [hget] at hstored
        rw [Option.some.inj hstored]
        exact ⟨hrunning, Int.le_trans (Int.le_max_left ..) (hdue' ▸ hdue)⟩
      · exact htidy hown timer hget
    refine h.remove (KeyedMap.get?_erase_self ..) (fun id' hid => KeyedMap.get?_erase_of_ne _ hid)
      (List.eraseIdx_sublist ..) (fun id' handle hid hget' => hrest id' handle (.inr hid) hget')
        (fun _ => rfl) rfl
      ⟨h.running.trans hlegal.1, ⟨timer.fireAt, ?_, hlegal.2⟩, h.lawful⟩
    rw [h.standing, hget]
    rfl

theorem step (h : Kept s) {happening : Happening} (htidy : Tidy s happening)
    (hstep : s.step happening = some s') : Kept s' := by
  cases happening with
  | schedule timer =>
    cases hstep
    exact h.schedule htidy
  | cancel timerId =>
    cases hstep
    exact h.cancel timerId
  | start =>
    cases hstep
    exact h.start htidy
  | stop =>
    cases hstep
    exact h.stop
  | advance ms =>
    cases hstep
    exact ⟨h.handle_lt, h.distinct, h.armed, h.all_armed, h.standing, h.running, h.lawful⟩
  | timeout k =>
    unfold InMemoryScheduler.step at hstep
    cases hk : s.timeouts[k]? with
    | none => simp [hk] at hstep
    | some t =>
      simp only [hk] at hstep
      split_ifs at hstep with hdue
      cases hstep
      exact h.onTimeout hk hdue (htidy t hk)

theorem timely (h : Kept s) : Timely s := by
  refine ⟨h.lawful, fun hrun id fireAt hstanding => ?_⟩
  rw [h.standing] at hstanding
  obtain ⟨timer, hget, rfl⟩ := Option.map_eq_some_iff.1 hstanding
  have hid : timer.id = id := KeyedMap.key_of_get? hget
  subst hid
  obtain ⟨handle, hhandle⟩ :=
    h.all_armed (h.running.symm.trans hrun) timer (KeyedMap.mem_of_get? hget) fun hf => hf
  obtain ⟨-, t, ht, -, hstored, hdue⟩ := h.armed _ _ (fun hf => hf) hhandle
  rw [hget] at hstored
  obtain rfl : timer = t.timer := Option.some.inj hstored
  obtain ⟨k, hk⟩ := List.mem_iff_getElem?.1 ht
  refine ⟨k, t, hk, rfl, hdue, fun hnow => ?_⟩
  have hfires : ({ s with timeouts := s.timeouts.eraseIdx k }.onTimeout t.timer).log =
      .fired t.timer.id s.now :: s.log := by
    simp only [InMemoryScheduler.onTimeout, hget]
    rfl
  exact ⟨_, by simp only [InMemoryScheduler.step, hk, if_pos hnow], hfires⟩

end Kept

theorem kept_start : Kept {} :=
  ⟨nofun, .nil, nofun, nofun, fun _ => rfl, rfl, trivial⟩

/-- In every tidy run of a scheduler. -/
theorem timers_fire_in_time (h : Machine.Reaches InMemoryScheduler.step Tidy {} s) : Timely s :=
  (h.keeps kept_start fun hkept hC hstep => hkept.step hC hstep).timely

def timerAt (fireAt : Time) : ScheduledTimer := ⟨1, 1, 1, fireAt, 0⟩

/-- A timer is scheduled again for an earlier time, and fires once. -/
theorem timers_fire_in_time_earlier : ∃ s : InMemoryScheduler,
    s.log = [.fired 1 20, .scheduled 1 20, .scheduled 1 50, .started] ∧ Timely s := by
  have hrun : (Machine.runs InMemoryScheduler.step Tidy
      [.start, .schedule (timerAt 50), .schedule (timerAt 20), .advance 20, .timeout 1, .advance 30,
        .timeout 0] {}).any
        (fun s => s.log = [.fired 1 20, .scheduled 1 20, .scheduled 1 50, .started]) = true := by
    decide +kernel
  obtain ⟨s, hruns, hs⟩ := (Option.any_eq_true ..).1 hrun
  exact ⟨s, of_decide_eq_true hs, timers_fire_in_time (.of_runs hruns)⟩

/-- A timer is scheduled again for a later time, and the timeout of the first time fires it. -/
theorem not_timers_fire_in_time : ¬ ∀ s : InMemoryScheduler,
    Machine.Reaches InMemoryScheduler.step (fun _ _ => True) {} s → Timely s := by
  intro h
  have hrun : (Machine.runs InMemoryScheduler.step (fun _ _ => True)
      [.start, .schedule (timerAt 20), .schedule (timerAt 50), .advance 20, .timeout 0] {}).any
        (fun s => s.log = [.fired 1 20, .scheduled 1 50, .scheduled 1 20, .started]) = true := by
    decide +kernel
  obtain ⟨s, hruns, hs⟩ := (Option.any_eq_true ..).1 hrun
  have hlawful := (h s (.of_runs hruns)).lawful
  rw [of_decide_eq_true hs] at hlawful
  obtain ⟨-, ⟨fireAt, hstanding, hle⟩, -⟩ := hlawful
  cases hstanding
  exact absurd hle (by decide)

end NexusWorkflow.Timeouts
