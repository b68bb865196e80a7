import NexusWorkflow.Proof.Throttle

/-!
# Admission of sign-ins

An attempt that is let through reserves a place, and gives it back when it is settled.  The places
that are reserved and the failures that count never exceed `maxFailures`, as long as no reservation
and no failure is lost.
-/

namespace NexusWorkflow

/-! ## What counts against a key -/

namespace LoginThrottle

variable {t t' : LoginThrottle} {key k : String} {now later : Time} {e : Entry}

/-- The reservations of the key that have not expired. -/
def reservedAt (t : LoginThrottle) (k : String) (now : Time) : List Time :=
  ((t.entries.get? k).map fun e => e.pending.filter (t.options.inFlight now)).getD []

/-- The failures of the key within the window. -/
def failedAt (t : LoginThrottle) (k : String) (now : Time) : List Time :=
  ((t.entries.get? k).map fun e => e.failures.filter (t.options.inWindow now)).getD []

theorem reservedAt_of_get? (h : t.entries.get? k = some e) :
    t.reservedAt k now = e.pending.filter (t.options.inFlight now) := by
  simp [reservedAt, h]

theorem failedAt_of_get? (h : t.entries.get? k = some e) :
    t.failedAt k now = e.failures.filter (t.options.inWindow now) := by
  simp [failedAt, h]

theorem inFlight_mono (o : LoginThrottleOptions) {s : Time} (hle : now ≤ later)
    (h : o.inFlight later s = true) : o.inFlight now s = true := by
  have h := of_decide_eq_true h
  exact decide_eq_true (Int.lt_of_le_of_lt (Int.sub_le_sub_right hle s) h)

theorem inWindow_mono (o : LoginThrottleOptions) {s : Time} (hle : now ≤ later)
    (h : o.inWindow later s = true) : o.inWindow now s = true := by
  have h := of_decide_eq_true h
  exact decide_eq_true (Int.lt_of_le_of_lt (Int.sub_le_sub_right hle s) h)

theorem filter_later {p q : Time → Bool} (h : ∀ s, q s = true → p s = true) (l : List Time) :
    (l.filter p).filter q = l.filter q := by
  rw [List.filter_filter]
  refine List.filter_congr fun s _ => ?_
  cases hq : q s with
  | false => rfl
  | true => simp [h s hq]

theorem reservedAt_later (t : LoginThrottle) (k : String) (hle : now ≤ later) :
    t.reservedAt k later = (t.reservedAt k now).filter (t.options.inFlight later) := by
  unfold reservedAt
  cases t.entries.get? k with
  | none => rfl
  | some e => exact (filter_later (fun s => inFlight_mono t.options hle) e.pending).symm

theorem failedAt_later (t : LoginThrottle) (k : String) (hle : now ≤ later) :
    t.failedAt k later = (t.failedAt k now).filter (t.options.inWindow later) := by
  unfold failedAt
  cases t.entries.get? k with
  | none => rfl
  | some e => exact (filter_later (fun s => inWindow_mono t.options hle) e.failures).symm

/-- The same counts against every key. -/
structure SameAt (t t' : LoginThrottle) (now : Time) : Prop where
  options : t'.options = t.options
  reserved : ∀ k, t'.reservedAt k now = t.reservedAt k now
  failed : ∀ k, t'.failedAt k now = t.failedAt k now

theorem SameAt.refl (t : LoginThrottle) (now : Time) : SameAt t t now :=
  ⟨rfl, fun _ => rfl, fun _ => rfl⟩

/-! ## Making room -/

/-- An entry for the key costs no other key what counts against it. -/
def spares (t : LoginThrottle) (key : String) (now : Time) : Bool :=
  (t.entries.get? key).isSome ||
    t.entries.values.all fun e => ((t.makeRoom now).get? e.key).isSome || t.isStale e now

/-- One more failure of the key is recorded, and either there is room for it or it locks the key. -/
def canCount (t : LoginThrottle) (key : String) (now : Time) : Bool :=
  (t.entryFor key now).2.any fun e =>
    decide (t.options.activeFailures e now + t.options.activePending e now <
      t.options.maxFailures) ||
      decide (t.options.maxFailures ≤ t.options.activeFailures e now + 1)

theorem sameAt_entryFor (h : t.spares key now = true) :
    SameAt t { t with entries := (t.entryFor key now).1 } now := by
  rcases hget : t.entries.get? key with _ | x
  · have hroom : (t.entryFor key now).1 = t.makeRoom now := by simp [entryFor, hget]
    simp only [spares, hget, Option.isSome_none, Bool.false_or, List.all_eq_true,
      Bool.or_eq_true] at h
    have hkeeps : ∀ k, (t.makeRoom now).get? k = t.entries.get? k ∨
        ((t.makeRoom now).get? k = none ∧ ∃ e, t.entries.get? k = some e ∧
          t.isStale e now = true) := by
      intro k
      rcases hk : (t.makeRoom now).get? k with _ | e
      · rcases hk' : t.entries.get? k with _ | e
        · exact .inl rfl
        · right
          have hmem := h e (KeyedMap.mem_of_get? hk')
          rw [KeyedMap.key_of_get? hk', hk] at hmem
          exact ⟨rfl, e, rfl, hmem.resolve_left (by simp)⟩
      · exact .inl (get?_of_makeRoom hk).symm
    rw [hroom]
    refine ⟨rfl, fun k => ?_, fun k => ?_⟩
    · rcases hkeeps k with hk | ⟨hk, e, he, hstale⟩
      · simp [reservedAt, hk]
      · have hzero : t.options.activePending e now = 0 := by
          simp only [isStale, Bool.and_eq_true, decide_eq_true_eq] at hstale
          exact hstale.2
        rw [reservedAt_of_get? he, List.length_eq_zero_iff.1 hzero]
        simp [reservedAt, hk]
    · rcases hkeeps k with hk | ⟨hk, e, he, hstale⟩
      · simp [failedAt, hk]
      · have hzero : t.options.activeFailures e now = 0 := by
          simp only [isStale, Bool.and_eq_true, decide_eq_true_eq] at hstale
          exact hstale.1.2
        rw [failedAt_of_get? he, List.length_eq_zero_iff.1 hzero]
        simp [failedAt, hk]
  · rw [entryFor_self hget]
    exact SameAt.refl t now

/-- The entry for a key holds what counts against it. -/
theorem counts_entryFor (h : (t.entryFor key now).2 = some e) :
    e.pending.filter (t.options.inFlight now) = t.reservedAt key now ∧
      e.failures.filter (t.options.inWindow now) = t.failedAt key now := by
  rcases hget : t.entries.get? key with _ | x
  · simp only [entryFor, hget] at h
    split_ifs at h
    rw [← Option.some.inj h]
    simp [reservedAt, failedAt, hget]
  · rw [entryFor_self hget] at h
    rw [← Option.some.inj h]
    exact ⟨(reservedAt_of_get? hget).symm, (failedAt_of_get? hget).symm⟩

theorem reservedAt_set {m : KeyedMap Entry.key} (x : Entry) (k : String) :
    ({ t with entries := m.set x } : LoginThrottle).reservedAt k now =
      if x.key = k then x.pending.filter (t.options.inFlight now)
      else ({ t with entries := m } : LoginThrottle).reservedAt k now := by
  unfold reservedAt
  rw [show ({ t with entries := m.set x } : LoginThrottle).entries = m.set x from rfl,
    KeyedMap.get?_set]
  split_ifs <;> rfl

theorem failedAt_set {m : KeyedMap Entry.key} (x : Entry) (k : String) :
    ({ t with entries := m.set x } : LoginThrottle).failedAt k now =
      if x.key = k then x.failures.filter (t.options.inWindow now)
      else ({ t with entries := m } : LoginThrottle).failedAt k now := by
  unfold failedAt
  rw [show ({ t with entries := m.set x } : LoginThrottle).entries = m.set x from rfl,
    KeyedMap.get?_set]
  split_ifs <;> rfl

/-! ## Calls -/

theorem begin_refused {s : Option Nat} (hbegin : t.begin key now later = (t', .refused s))
    (h : t.check key now = .allowed → t.spares key later = true) : SameAt t t' later := by
  unfold LoginThrottle.begin at hbegin
  cases hcheck : t.check key now with
  | refused s' =>
    rw [hcheck] at hbegin
    rw [← (Prod.mk.inj hbegin).1]
    exact SameAt.refl t later
  | allowed =>
    have hsame := sameAt_entryFor (h hcheck)
    rcases hentry : t.entryFor key later with ⟨entries, _ | entry⟩
    · rw [hentry] at hsame
      simp only [hcheck, hentry, Prod.mk.injEq] at hbegin
      exact hbegin.1 ▸ hsame
    · simp [hcheck, hentry] at hbegin

theorem begin_allowed (hbegin : t.begin key now later = (t', .allowed))
    (h : t.spares key later = true) :
    t.check key now = .allowed ∧ (∀ k, t'.failedAt k later = t.failedAt k later) ∧
      ∀ k, t'.reservedAt k later =
        if key = k then t.reservedAt k later ++ [later].filter (t.options.inFlight later)
        else t.reservedAt k later := by
  unfold LoginThrottle.begin at hbegin
  cases hcheck : t.check key now with
  | refused s => simp [hcheck] at hbegin
  | allowed =>
    have hsame := sameAt_entryFor h
    rcases hentry : t.entryFor key later with ⟨entries, _ | entry⟩
    · simp [hcheck, hentry] at hbegin
    · have hsnd : (t.entryFor key later).2 = some entry := by rw [hentry]
      have hkey := key_entryFor hsnd
      have hcounts := counts_entryFor hsnd
      rw [hentry] at hsame
      simp only [hcheck, hentry, Prod.mk.injEq, and_true] at hbegin
      subst hbegin
      refine ⟨rfl, fun k => ?_, fun k => ?_⟩
      · rw [failedAt_set]
        split_ifs with hk
        · rw [hcounts.2, ← hkey, hk]
        · exact hsame.failed k
      · rw [reservedAt_set]
        simp only [hkey]
        split_ifs with hk
        · rw [List.filter_append, hcounts.1, hk]
        · exact hsame.reserved k

theorem settle_counts (t : LoginThrottle) (key : String) (startedAt now : Time) :
    (∀ k, (t.settle key startedAt).failedAt k now = t.failedAt k now) ∧
      ∀ k, (t.settle key startedAt).reservedAt k now =
        if key = k then (t.reservedAt k now).erase startedAt else t.reservedAt k now := by
  unfold LoginThrottle.settle
  split
  · next hget =>
    refine ⟨fun k => rfl, fun k => ?_⟩
    split_ifs with hk
    · rw [← hk]
      simp [reservedAt, hget]
    · rfl
  · next entry hget =>
    have hkey := KeyedMap.key_of_get? hget
    refine ⟨fun k => ?_, fun k => ?_⟩
    · rw [failedAt_set]
      split_ifs with hk
      · rw [← hk, failedAt_of_get? (e := entry) (by rw [← hget]; exact congrArg _ hkey)]
      · rfl
    · rw [reservedAt_set]
      simp only [hkey]
      split_ifs with hk
      · rw [← hk, reservedAt_of_get? hget]
        exact List.erase_filter.symm
      · rfl

theorem filter_failed (o : LoginThrottleOptions) (e : Entry) (now : Time) :
    (e.failed o now).failures.filter (o.inWindow now) =
      if o.maxFailures ≤ o.activeFailures e now + 1 then []
      else e.failures.filter (o.inWindow now) ++ [now].filter (o.inWindow now) := by
  unfold Entry.failed LoginThrottleOptions.activeFailures
  simp only [List.length_append, List.length_singleton]
  split_ifs
  · rfl
  · rw [List.filter_append, List.filter_filter]
    simp

theorem key_failed (o : LoginThrottleOptions) (e : Entry) (now : Time) :
    (e.failed o now).key = e.key := by
  unfold Entry.failed
  dsimp only
  split <;> rfl

theorem pending_failed (o : LoginThrottleOptions) (e : Entry) (now : Time) :
    (e.failed o now).pending = e.pending := by
  unfold Entry.failed
  dsimp only
  split <;> rfl

/-- A failure is recorded with the key, or locks it. -/
theorem addFailure_counts (hentry : (t.entryFor key now).2 = some e) (h : t.spares key now = true) :
    (∀ k, (t.addFailure key now).reservedAt k now = t.reservedAt k now) ∧
      ∀ k, (t.addFailure key now).failedAt k now =
        if key = k then
          if t.options.maxFailures ≤ t.options.activeFailures e now + 1 then []
          else t.failedAt k now ++ [now].filter (t.options.inWindow now)
        else t.failedAt k now := by
  have hsame := sameAt_entryFor h
  have hkey := key_entryFor hentry
  have hcounts := counts_entryFor hentry
  unfold LoginThrottle.addFailure
  rcases hfor : t.entryFor key now with ⟨entries, x⟩
  rw [hfor] at hentry hsame
  simp only at hentry
  subst hentry
  refine ⟨fun k => ?_, fun k => ?_⟩
  · rw [reservedAt_set]
    simp only [key_failed, hkey, pending_failed]
    split_ifs with hk
    · rw [hcounts.1, hk]
    · exact hsame.reserved k
  · rw [failedAt_set]
    simp only [key_failed, hkey, filter_failed]
    split_ifs with hk hlock
    · rfl
    · rw [hcounts.2, hk]
    · exact hsame.failed k

/-- A success takes the failures off the key, unless it is locked. -/
theorem recordSuccess_counts (t : LoginThrottle) (key : String) (now later : Time) :
    (∀ k, (t.recordSuccess key now later).reservedAt k later = t.reservedAt k later) ∧
      ∀ k, (t.recordSuccess key now later).failedAt k later =
        if key = k ∧ ¬ (t.entries.get? key).any (·.isLocked now) then []
          else t.failedAt k later := by
  unfold LoginThrottle.recordSuccess
  split
  · next hget =>
    refine ⟨fun k => rfl, fun k => ?_⟩
    split_ifs with hk
    · rw [← hk.1]
      simp [failedAt, hget]
    · rfl
  · next entry hget =>
    have hkey := KeyedMap.key_of_get? hget
    have hlocked : (t.entries.get? key).any (·.isLocked now) =
        decide (now < entry.lockedUntil) := by
      simp [hget, Entry.isLocked]
    rw [hlocked]
    split_ifs with hlock hpending
    · exact ⟨fun k => rfl, fun k => by simp [hlock]⟩
    · have herase : ∀ k, key ≠ k → (t.entries.erase key).get? k = t.entries.get? k := fun k hk =>
        KeyedMap.get?_erase_of_ne _ hk
      refine ⟨fun k => ?_, fun k => ?_⟩
      · by_cases hk : key = k
        · rw [← hk, reservedAt_of_get? hget, List.length_eq_zero_iff.1 hpending]
          simp [reservedAt]
        · simp [reservedAt, herase k hk]
      · by_cases hk : key = k
        · simp [failedAt, hk, hlock]
        · simp [failedAt, herase k hk, hk]
    · refine ⟨fun k => ?_, fun k => ?_⟩
      · rw [reservedAt_set]
        simp only [hkey]
        split_ifs with hk
        · rw [← hk, reservedAt_of_get? hget]
        · rfl
      · rw [failedAt_set]
        simp only [hkey]
        by_cases hk : key = k
        · simp [hk, hlock]
        · simp [hk]

end LoginThrottle

/-! ## Orderly runs -/

namespace ThrottleLog

open LoginThrottle

variable {w w' : ThrottleLog} {call : ThrottleCall} {key : String} {now later : Time} {i : Nat}

/-- The attempts of the key that are in flight: admitted, not expired, not settled. -/
def inFlightAt (w : ThrottleLog) (key : String) (now : Time) : List Attempt :=
  w.attempts.filter fun a =>
    decide (a.key = key) && !a.settled && w.throttle.options.inFlight now a.startedAt

/-- The failures of the key confirmed within the window since the last lock or success. -/
def confirmedAt (w : ThrottleLog) (key : String) (now : Time) : List Time :=
  (w.confirmed key).filter (w.throttle.options.inWindow now)

/-- The unsettled attempts of the key that started at the time. -/
def unsettled (w : ThrottleLog) (key : String) (startedAt : Time) : Nat :=
  w.attempts.countP fun a => decide (a.key = key) && !a.settled && decide (a.startedAt = startedAt)

/-- Settling the attempt takes the place of no other one: it is the first time, or there is no
unsettled attempt of the same key and time. -/
def GivesOwn (w : ThrottleLog) (i : Nat) (now : Time) : Prop :=
  ∀ a ∈ w.attempts[i]?, a.settled = true → w.throttle.options.inFlight now a.startedAt = true →
    w.unsettled a.key a.startedAt = 0

/-- The attempt is in flight. -/
def Flies (w : ThrottleLog) (i : Nat) (now : Time) : Prop :=
  ∃ a ∈ w.attempts[i]?, a.settled = false ∧ w.throttle.options.inFlight now a.startedAt = true

/-- The failure can be counted without a loss. -/
def Counts (w : ThrottleLog) (key : String) (now : Time) : Prop :=
  w.throttle.spares key now = true ∧ w.throttle.canCount key now = true

/-- No reservation and no failure is lost: an attempt is let through only if some attempt may be,
and the room for its entry is made of stale entries; a handle that is settled again finds no twin in
flight; and a failure of an attempt that no longer holds a place finds one. -/
def Orderly (w : ThrottleLog) : ThrottleCall → Prop
  | .check _ _ | .recordSuccess _ _ _ => True
  | .begin key now later =>
      w.throttle.check key now = .allowed →
        ((w.throttle.entries.get? key).isSome ∨ 0 < w.throttle.options.maxFailures) ∧
          w.throttle.spares key later = true
  | .release i => w.GivesOwn i w.clock
  | .fail i now =>
      w.GivesOwn i now ∧ (w.Flies i now ∨ ∀ a ∈ w.attempts[i]?, (w.settle i).Counts a.key now)
  | .recordFailure key now => w.Counts key now

instance : Decidable (w.GivesOwn i now) := by unfold GivesOwn; infer_instance

instance : Decidable (w.Flies i now) := by unfold Flies; infer_instance

instance : Decidable (w.Counts key now) := by unfold Counts; infer_instance

instance : Decidable (w.Orderly call) := by
  unfold Orderly
  rcases call with _ | _ | _ | _ | _ | _ <;> infer_instance

/-- Every attempt in flight has a reservation, every failure is recorded, and together they are at
most `maxFailures`. -/
structure Sound (w : ThrottleLog) : Prop where
  reserved : ∀ key s, w.throttle.options.inFlight w.clock s = true →
    w.unsettled key s ≤ (w.throttle.reservedAt key w.clock).count s
  recorded : ∀ key s, w.throttle.options.inWindow w.clock s = true →
    (w.confirmed key).count s ≤ (w.throttle.failedAt key w.clock).count s
  bounded : ∀ key, (w.throttle.failedAt key w.clock).length +
    (w.throttle.reservedAt key w.clock).length ≤
    w.throttle.options.maxFailures

theorem sound_fresh (options : LoginThrottleOptions) (start : Time) : (fresh options start).Sound :=
  ⟨fun _ _ _ => Nat.zero_le _, fun _ _ _ => Nat.zero_le _, fun _ => Nat.zero_le _⟩

/-- Time alone loses nothing. -/
theorem Sound.wait (h : w.Sound) (hle : w.clock ≤ now) :
    ({ w with clock := now } : ThrottleLog).Sound where
  reserved key s hs := by
    show w.unsettled key s ≤ (w.throttle.reservedAt key now).count s
    rw [reservedAt_later _ _ hle, List.count_filter hs]
    exact h.reserved key s (inFlight_mono _ hle hs)
  recorded key s hs := by
    show (w.confirmed key).count s ≤ (w.throttle.failedAt key now).count s
    rw [failedAt_later _ _ hle, List.count_filter hs]
    exact h.recorded key s (inWindow_mono _ hle hs)
  bounded key := by
    show (w.throttle.failedAt key now).length + (w.throttle.reservedAt key now).length ≤
      w.throttle.options.maxFailures
    rw [reservedAt_later _ _ hle, failedAt_later _ _ hle]
    have hf := List.length_filter_le (w.throttle.options.inWindow now)
        (w.throttle.failedAt key w.clock)
    have hr := List.length_filter_le (w.throttle.options.inFlight now)
        (w.throttle.reservedAt key w.clock)
    have := h.bounded key
    omega

/-- Every attempt in flight has a reservation of its own. -/
theorem Sound.count_inFlightAt_le (h : w.Sound) (key : String) (s : Time) :
    ((w.inFlightAt key w.clock).map (·.startedAt)).count s ≤
    (w.throttle.reservedAt key w.clock).count s := by
  by_cases hs : w.throttle.options.inFlight w.clock s = true
  · refine Nat.le_trans ?_ (h.reserved key s hs)
    unfold inFlightAt unsettled List.count
    rw [List.countP_map, List.countP_filter]
    refine List.countP_mono_left fun a _ ha => ?_
    simp only [Function.comp_apply, Bool.and_eq_true, beq_iff_eq, decide_eq_true_eq] at ha ⊢
    exact ⟨ha.2.1, ha.1⟩
  · rw [List.count_eq_zero.2]
    · exact Nat.zero_le _
    · intro hmem
      obtain ⟨a, ha, rfl⟩ := List.mem_map.1 hmem
      have := (List.mem_filter.1 ha).2
      simp only [Bool.and_eq_true] at this
      exact hs this.2

theorem Sound.length_inFlightAt_le (h : w.Sound) (key : String) :
    (w.inFlightAt key w.clock).length ≤ (w.throttle.reservedAt key w.clock).length := by
  have := (List.subperm_ext_iff.2 fun s _ => h.count_inFlightAt_le key s).length_le
  rwa [List.length_map] at this

theorem Sound.length_confirmedAt_le (h : w.Sound) (key : String) :
    (w.confirmedAt key w.clock).length ≤ (w.throttle.failedAt key w.clock).length := by
  refine (List.subperm_ext_iff.2 fun s _ => ?_).length_le
  by_cases hs : w.throttle.options.inWindow w.clock s = true
  · unfold confirmedAt
    rw [List.count_filter hs]
    exact h.recorded key s hs
  · rw [List.count_eq_zero.2]
    · exact Nat.zero_le _
    · exact fun hmem => hs (List.mem_filter.1 hmem).2

/-! ## Steps -/

/-- The same counts against every key and the same attempts. -/
theorem Sound.same {t : LoginThrottle} (h : w.Sound) (hsame : SameAt w.throttle t w.clock) :
    ({ w with throttle := t } : ThrottleLog).Sound where
  reserved key s hs := by
    simp only [hsame.options] at hs
    have := h.reserved key s hs
    rw [← hsame.reserved key] at this
    exact this
  recorded key s hs := by
    simp only [hsame.options] at hs
    have := h.recorded key s hs
    rw [← hsame.failed key] at this
    exact this
  bounded key := by
    have := h.bounded key
    rw [← hsame.failed key, ← hsame.reserved key, ← hsame.options] at this
    exact this

/-- An attempt that is let through finds a free place. -/
theorem free (hlater : now ≤ later)
    (hcheck : w.throttle.check key now = .allowed)
    (hkey : (w.throttle.entries.get? key).isSome ∨ 0 < w.throttle.options.maxFailures) :
    (w.throttle.failedAt key later).length + (w.throttle.reservedAt key later).length <
      w.throttle.options.maxFailures := by
  rcases hget : w.throttle.entries.get? key with _ | e
  · rw [hget] at hkey
    simpa [failedAt, reservedAt, hget] using hkey
  · simp only [LoginThrottle.check, hget] at hcheck
    split_ifs at hcheck with hlock hmax
    have hf := List.length_filter_le (w.throttle.options.inWindow later)
        (w.throttle.failedAt key now)
    have hr := List.length_filter_le (w.throttle.options.inFlight later)
        (w.throttle.reservedAt key now)
    have hfailed : w.throttle.failedAt key now =
        e.failures.filter (w.throttle.options.inWindow now) :=
      failedAt_of_get? hget
    have hreserved : w.throttle.reservedAt key now =
        e.pending.filter (w.throttle.options.inFlight now) :=
      reservedAt_of_get? hget
    rw [← failedAt_later _ _ hlater, hfailed] at hf
    rw [← reservedAt_later _ _ hlater, hreserved] at hr
    unfold LoginThrottleOptions.activeFailures LoginThrottleOptions.activePending at hmax
    omega

theorem Sound.begin {t : LoginThrottle} (h : w.Sound) (hle : w.clock ≤ now) (hlater : now ≤ later)
    (hbegin : w.throttle.begin key now later = (t, .allowed))
    (hkey : (w.throttle.entries.get? key).isSome ∨ 0 < w.throttle.options.maxFailures)
    (hspares : w.throttle.spares key later = true) :
    ({ w with throttle := t, clock := later, attempts := w.attempts ++
    [{ key, startedAt := later }] } :
      ThrottleLog).Sound := by
  obtain ⟨hcheck, hfailed, hreserved⟩ := begin_allowed hbegin hspares
  have hopts : t.options = w.throttle.options := by
    have hsame : (w.throttle.begin key now later).1.options = w.throttle.options := options_begin
    rw [hbegin] at hsame
    exact hsame
  have hw := h.wait (Int.le_trans hle hlater)
  constructor
  · intro k s hs
    simp only [hopts] at hs
    have hold := hw.reserved k s hs
    show List.countP _ (w.attempts ++ [_]) ≤ (t.reservedAt k later).count s
    rw [List.countP_append, hreserved k]
    split_ifs with hk
    · rw [List.count_append, List.count_filter hs]
      refine Nat.add_le_add hold ?_
      by_cases hnow : later = s
      · simp [hk, hnow]
      · simp [hnow]
    · simp only [List.countP_singleton, hk]
      exact hold
  · intro k s hs
    simp only [hopts] at hs
    have hold := hw.recorded k s hs
    rw [← hfailed k] at hold
    exact hold
  · intro k
    have hold := hw.bounded k
    show (t.failedAt k later).length + (t.reservedAt k later).length ≤ t.options.maxFailures
    rw [hfailed k, hreserved k, hopts]
    split_ifs with hk
    · subst hk
      have hone := List.length_filter_le (w.throttle.options.inFlight later) [later]
      have hfree := free hlater hcheck hkey
      rw [List.length_append]
      simp only [List.length_singleton] at hone
      omega
    · exact hold

theorem Sound.settle (h : w.Sound) (hown : w.GivesOwn i w.clock) : (w.settle i).Sound := by
  rcases ha : w.attempts[i]? with _ | a
  · simpa [ThrottleLog.settle, ha] using h
  · obtain ⟨hi, rfl⟩ := List.getElem?_eq_some_iff.1 ha
    obtain ⟨hfailed, hreserved⟩ :=
      settle_counts w.throttle w.attempts[i].key w.attempts[i].startedAt w.clock
    have hsettle : w.settle i =
        { w with throttle := w.throttle.settle w.attempts[i].key w.attempts[i].startedAt
                 attempts := w.attempts.set i { w.attempts[i] with settled := true } } := by
      simp [ThrottleLog.settle, ha]
    rw [hsettle]
    constructor
    · intro k s hs
      simp only [options_settle] at hs
      have hold := h.reserved k s hs
      show List.countP _ (w.attempts.set i _) ≤
        ((w.throttle.settle _ _).reservedAt k w.clock).count s
      rw [List.countP_set hi, hreserved k]
      unfold unsettled at hold
      by_cases hk : w.attempts[i].key = k
      · by_cases hstart : w.attempts[i].startedAt = s
        · subst hk hstart
          rw [if_pos rfl, List.count_erase_self]
          cases hset : w.attempts[i].settled with
          | true =>
            have hzero := hown _ ha hset hs
            unfold unsettled at hzero
            simp [hzero]
          | false => simpa using Nat.sub_le_sub_right hold 1
        · rw [if_pos hk, List.count_erase_of_ne (Ne.symm hstart)]
          simpa [hstart] using hold
      · rw [if_neg hk]
        simpa [hk] using hold
    · intro k s hs
      simp only [options_settle] at hs
      have hold := h.recorded k s hs
      rw [← hfailed k] at hold
      exact hold
    · intro k
      have hold := h.bounded k
      show ((w.throttle.settle _ _).failedAt k w.clock).length +
        ((w.throttle.settle _ _).reservedAt k w.clock).length ≤
          (w.throttle.settle _ _).options.maxFailures
      rw [hfailed k, hreserved k, options_settle]
      split_ifs
      · have := List.length_erase_le (a := w.attempts[i].startedAt)
          (l := w.throttle.reservedAt k w.clock)
        omega
      · exact hold

theorem Sound.addFailure (h : w.Sound) (hcounts : w.Counts key w.clock) :
    (w.addFailure key w.clock).Sound := by
  obtain ⟨hspares, hcan⟩ := hcounts
  obtain ⟨e, hentry, hroom⟩ := (Option.any_eq_true ..).1 hcan
  obtain ⟨hreserved, hfailed⟩ := addFailure_counts hentry hspares
  have hconfirm : w.confirm key w.clock key =
      if w.throttle.options.maxFailures ≤ w.throttle.options.activeFailures e w.clock + 1 then []
      else w.confirmed key ++ [w.clock] := by
    simp [confirm, hentry]
  constructor
  · intro k s hs
    simp only [ThrottleLog.addFailure, options_addFailure] at hs
    have hold := h.reserved k s hs
    rw [← hreserved k] at hold
    exact hold
  · intro k s hs
    simp only [ThrottleLog.addFailure, options_addFailure] at hs
    have hold := h.recorded k s hs
    show (w.confirm key w.clock k).count s ≤
      ((w.throttle.addFailure key w.clock).failedAt k w.clock).count s
    rw [hfailed k]
    split_ifs with hk hlock
    · refine Nat.le_of_eq ?_
      rw [← hk, hconfirm, if_pos hlock]
    · rw [← hk, hconfirm, if_neg hlock, List.count_append, List.count_append, List.count_filter hs,
        hk]
      exact Nat.add_le_add_right hold _
    · have hne : k ≠ key := Ne.symm hk
      simpa [confirm, hne] using hold
  · intro k
    have hold := h.bounded k
    show ((w.throttle.addFailure key w.clock).failedAt k w.clock).length +
      ((w.throttle.addFailure key w.clock).reservedAt k w.clock).length ≤
        (w.throttle.addFailure key w.clock).options.maxFailures
    rw [hfailed k, hreserved k, options_addFailure]
    split_ifs with hk hlock
    · rw [List.length_nil]
      omega
    · subst hk
      have hone := List.length_filter_le (w.throttle.options.inWindow w.clock) [w.clock]
      obtain ⟨hpending, hfailures⟩ := counts_entryFor hentry
      simp only [Bool.or_eq_true, decide_eq_true_eq] at hroom
      unfold LoginThrottleOptions.activeFailures LoginThrottleOptions.activePending at hroom
      unfold LoginThrottleOptions.activeFailures at hlock
      rw [hpending, hfailures] at hroom
      rw [hfailures] at hlock
      rw [List.length_append]
      simp only [List.length_singleton] at hone
      omega
    · exact hold

/-- An attempt in flight gives back a place that its failure can take. -/
theorem Sound.counts_of_flies (h : w.Sound) (hflies : w.Flies i w.clock) :
    ∀ a ∈ w.attempts[i]?, (w.settle i).Counts a.key w.clock := by
  obtain ⟨a, ha, hset, hin⟩ := hflies
  intro b hb
  obtain rfl : a = b := Option.mem_unique ha hb
  have hsettle : (w.settle i).throttle = w.throttle.settle a.key a.startedAt := by
    simp only [Option.mem_def] at ha
    simp [ThrottleLog.settle, ha]
  have hmem : a.startedAt ∈ w.throttle.reservedAt a.key w.clock := by
    rw [← List.count_pos_iff]
    refine Nat.lt_of_lt_of_le ?_ (h.reserved a.key a.startedAt hin)
    exact List.countP_pos_iff.2 ⟨a, List.mem_of_getElem? ha, by simp [hset]⟩
  obtain ⟨hfailed, hreserved⟩ := settle_counts w.throttle a.key a.startedAt w.clock
  rcases hget : w.throttle.entries.get? a.key with _ | e
  · simp [reservedAt, hget] at hmem
  · have hthere : (w.throttle.settle a.key a.startedAt).entries.get? a.key =
        some { e with pending := e.pending.erase a.startedAt } := by
      simp only [LoginThrottle.settle, hget]
      rw [KeyedMap.get?_set, if_pos (KeyedMap.key_of_get? hget)]
    refine ⟨?_, ?_⟩
    · rw [hsettle]
      simp [spares, hthere]
    · rw [hsettle]
      unfold canCount
      rw [entryFor_self hthere]
      have hf := congrArg List.length (hfailed a.key)
      have hr := congrArg List.length (hreserved a.key)
      rw [failedAt_of_get? hthere] at hf
      rw [if_pos rfl, reservedAt_of_get? hthere, List.length_erase_of_mem hmem] at hr
      have hpos := List.length_pos_of_mem hmem
      have hold := h.bounded a.key
      simp only [Option.any_some, Bool.or_eq_true, decide_eq_true_eq]
      left
      unfold LoginThrottleOptions.activeFailures LoginThrottleOptions.activePending
      rw [hf, hr, options_settle]
      omega

theorem Sound.recordSuccess (h : w.Sound)
    (htimely : (ThrottleCall.recordSuccess key now later).Timely w.clock) :
    (w.after (.recordSuccess key now later)).Sound := by
  have hw := h.wait (Int.le_trans htimely.1 htimely.2)
  obtain ⟨hreserved, hfailed⟩ := recordSuccess_counts w.throttle key now later
  constructor
  · intro k s hs
    simp only [after, options_recordSuccess] at hs
    have hold := hw.reserved k s hs
    rw [← hreserved k] at hold
    exact hold
  · intro k s hs
    simp only [after, options_recordSuccess] at hs
    have hold := hw.recorded k s hs
    show List.count s (if k = key ∧ _ then _ else _) ≤
      ((w.throttle.recordSuccess key now later).failedAt k later).count s
    rw [hfailed k]
    by_cases hk : key = k ∧ ¬ (w.throttle.entries.get? key).any (·.isLocked now)
    · refine Nat.le_of_eq ?_
      rw [if_pos hk, if_pos ⟨hk.1.symm, hk.2⟩]
    · rw [if_neg hk, if_neg fun hk' => hk ⟨hk'.1.symm, hk'.2⟩]
      exact hold
  · intro k
    have hold := hw.bounded k
    show ((w.throttle.recordSuccess key now later).failedAt k later).length +
      ((w.throttle.recordSuccess key now later).reservedAt k later).length ≤
        (w.throttle.recordSuccess key now later).options.maxFailures
    rw [hfailed k, hreserved k, options_recordSuccess]
    split_ifs
    · exact Nat.le_trans (Nat.add_le_add_right (Nat.zero_le _) _) hold
    · exact hold

theorem settle_wait (w : ThrottleLog) (i : Nat) (now : Time) :
    ({ w with clock := now } : ThrottleLog).settle i = { w.settle i with clock := now } := by
  unfold ThrottleLog.settle
  dsimp only
  split <;> rfl

/-- Every orderly call keeps the counts sound. -/
theorem Sound.after (h : w.Sound) (htimely : call.Timely w.clock) (hcall : w.Orderly call) :
    (w.after call).Sound := by
  cases call with
  | check key now => exact h.wait htimely
  | begin key now later =>
    rcases hb : w.throttle.begin key now later with ⟨t, _ | s⟩
    · have hcheck : w.throttle.check key now = .allowed := by
        cases hc : w.throttle.check key now with
        | allowed => rfl
        | refused s => simp [LoginThrottle.begin, hc] at hb
      obtain ⟨hkey, hspares⟩ := hcall hcheck
      have := h.begin htimely.1 htimely.2 hb hkey hspares
      simpa [ThrottleLog.after, hb] using this
    · have hsame := begin_refused hb fun hcheck => (hcall hcheck).2
      have := (h.wait (Int.le_trans htimely.1 htimely.2)).same (t := t) hsame
      simpa [ThrottleLog.after, hb] using this
  | fail i now =>
    obtain ⟨hown, hcounts⟩ := hcall
    have hw := h.wait htimely
    rcases ha : w.attempts[i]? with _ | a
    · simpa [ThrottleLog.after, ha] using hw
    · have hcan : (({ w with clock := now } : ThrottleLog).settle i).Counts a.key now := by
        rcases hcounts with hflies | hcounts
        · exact Sound.counts_of_flies hw hflies a ha
        · have := hcounts a ha
          rw [settle_wait]
          exact this
      have := hw.settle hown
      rw [settle_wait] at this hcan
      have hafter : w.after (.fail i now) = (w.settle i).addFailure a.key now := by
        simp [ThrottleLog.after, ha]
      rw [hafter]
      exact Sound.addFailure this hcan
  | release i => exact h.settle hcall
  | recordFailure key now => exact (h.wait htimely).addFailure hcall
  | recordSuccess key now later => exact h.recordSuccess htimely

theorem Sound.leads (hrun : Leads Orderly w w') (h : w.Sound) : w'.Sound := by
  induction hrun with
  | refl => exact h
  | tail _ hcall ih =>
    obtain ⟨call, htimely, hcall, rfl⟩ := hcall
    exact ih.after htimely hcall

/-- In every orderly run of a throttle, at every moment, the attempts of a key in flight and its
confirmed failures are at most `maxFailures` together, each attempt in flight has a reservation of
its own, and one more attempt is let through only if they are fewer. -/
theorem admission_bound (options : LoginThrottleOptions) (start : Time) (w : ThrottleLog)
    (hw : Leads Orderly (fresh options start) w) (key : String) (now : Time)
    (hnow : w.clock ≤ now) : (w.inFlightAt key now).length + (w.confirmedAt key now).length ≤
    options.maxFailures ∧
      (∀ s, ((w.inFlightAt key now).map (·.startedAt)).count s ≤
      (w.throttle.reservedAt key now).count s) ∧
      ∀ before, before ≤ now → w.Orderly (.begin key before now) →
        (w.throttle.begin key before now).2 = .allowed →
          (w.inFlightAt key now).length + (w.confirmedAt key now).length < options.maxFailures := by
  have hopts : w.throttle.options = options := options_leads hw
  have hsound := (sound_fresh options start).leads hw
  have hlater := hsound.wait hnow
  have hinFlight := hlater.length_inFlightAt_le key
  have hconfirmed := hlater.length_confirmedAt_le key
  have hbound := hlater.bounded key
  rw [← hopts]
  refine ⟨?_, hlater.count_inFlightAt_le key, ?_⟩
  · exact Nat.le_trans (Nat.add_le_add hinFlight hconfirmed) (Nat.add_comm _ _ ▸ hbound)
  · intro before hbefore horderly hallowed
    have hcheck : w.throttle.check key before = .allowed := by
      cases hc : w.throttle.check key before with
      | allowed => rfl
      | refused s => simp [LoginThrottle.begin, hc] at hallowed
    have hfree := free (w := w) hbefore hcheck (horderly hcheck).1
    have hle : (w.inFlightAt key now).length + (w.confirmedAt key now).length ≤
        (w.throttle.failedAt key now).length + (w.throttle.reservedAt key now).length :=
      Nat.add_comm (w.throttle.reservedAt key now).length _ ▸ Nat.add_le_add hinFlight hconfirmed
    exact Nat.lt_of_le_of_lt hle hfree

/-- The calls one after another, each timely and with the condition. -/
def Allows (C : ThrottleLog → ThrottleCall → Prop) : ThrottleLog → List ThrottleCall → Prop
  | _, [] => True
  | w, call :: calls => call.Timely w.clock ∧ C w call ∧ Allows C (w.after call) calls

theorem leads_of_allows {C : ThrottleLog → ThrottleCall → Prop} {calls : List ThrottleCall}
    (h : Allows C w calls) : Leads C w (calls.foldl after w) := by
  induction calls generalizing w with
  | nil => exact .refl
  | cons call calls ih => exact .head ⟨call, h.1, h.2.1, rfl⟩ (ih h.2.2)

/-- Two attempts at most, with room for one key. -/
def twoAttempts : LoginThrottleOptions :=
  { maxFailures := 2, windowMs := 1000, lockMs := 1000, maxKeys := 1 }

/-- One attempt fails, one is given back. -/
theorem admission_bound_run :
    let w := [ThrottleCall.begin "ada" 5 5, .begin "ada" 5 6, .fail 0 7, .release 1].foldl after
      (fresh twoAttempts 0)
    (w.inFlightAt "ada" 7).length + (w.confirmedAt "ada" 7).length ≤ 2 := by
  intro w
  refine (admission_bound twoAttempts 0 w (leads_of_allows ?_) "ada" 7 (by decide +kernel)).1
  exact ⟨by decide +kernel, by decide +kernel, by decide +kernel, by decide +kernel,
    by decide +kernel,
    by decide +kernel, by decide +kernel, by decide +kernel, trivial⟩

/-- The calls of the sign-in: failures are reported through the handles only. -/
def signIn (_ : ThrottleLog) : ThrottleCall → Prop
  | .recordFailure _ _ => False
  | _ => True

/-- Two attempts of one millisecond; the handle of the first gives back the places of both, and two
more are let through. -/
theorem not_admission_bound :
    ¬ ∀ (options : LoginThrottleOptions) (start : Time) (w : ThrottleLog),
      Leads signIn (fresh options start) w → ∀ key now, w.clock ≤ now →
        (w.inFlightAt key now).length + (w.confirmedAt key now).length ≤ options.maxFailures := by
  intro h
  have hrun : Leads signIn (fresh twoAttempts 0)
      ([ThrottleCall.begin "ada" 5 5, .begin "ada" 5 5, .release 0, .release 0, .begin "ada" 6 6,
        .begin "ada" 7 7].foldl after (fresh twoAttempts 0)) :=
    leads_of_allows ⟨by decide +kernel, trivial, by decide +kernel, trivial, by decide +kernel,
      trivial,
      by decide +kernel, trivial, by decide +kernel, trivial, by decide +kernel, trivial, trivial⟩
  have := h twoAttempts 0 _ hrun "ada" 7 (by decide +kernel)
  revert this
  decide +kernel

end ThrottleLog

end NexusWorkflow
