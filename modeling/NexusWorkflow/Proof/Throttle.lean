import NexusWorkflow.Model.Throttle

/-!
# Locks of the throttle

A key that is locked stays locked until its time has come, whatever is asked of the throttle about
other keys, and the table never holds more than `maxKeys` entries.
-/

namespace NexusWorkflow

/-! ## Runs -/

/-- An attempt that was let through; its place in the list stands for its handle. -/
structure Attempt where
  key : String
  startedAt : Time
  settled : Bool := false

/-- A throttle, the last reading of its clock, the attempts that it has let through, and for each
key the failures confirmed since it was last locked or successful. -/
structure ThrottleLog where
  throttle : LoginThrottle
  clock : Time
  attempts : List Attempt := []
  confirmed : String → List Time := fun _ => []

/-- A call, with what it reads from the clock. -/
inductive ThrottleCall where
  | check (key : String) (now : Time)
  | begin (key : String) (now later : Time)
  | fail (attempt : Nat) (now : Time)
  | release (attempt : Nat)
  | recordFailure (key : String) (now : Time)
  | recordSuccess (key : String) (now later : Time)

/-- The clock does not run backwards. -/
def ThrottleCall.Timely (clock : Time) : ThrottleCall → Prop
  | check _ now | fail _ now | recordFailure _ now => clock ≤ now
  | begin _ now later | recordSuccess _ now later => clock ≤ now ∧ now ≤ later
  | release _ => True

instance (clock : Time) (call : ThrottleCall) : Decidable (call.Timely clock) := by
  unfold ThrottleCall.Timely
  split <;> infer_instance

namespace ThrottleLog

/-- The failures of the key when one more is confirmed: a failure that locks the key is the last
one. -/
def confirm (w : ThrottleLog) (key : String) (now : Time) : String → List Time := fun k =>
  if k ≠ key then w.confirmed k
  else
    match (w.throttle.entryFor key now).2 with
    | none => w.confirmed k ++ [now]
    | some entry =>
        if w.throttle.options.maxFailures ≤ w.throttle.options.activeFailures entry now + 1 then []
        else w.confirmed k ++ [now]

/-- The attempt gives its reservation back. -/
def settle (w : ThrottleLog) (attempt : Nat) : ThrottleLog :=
  match w.attempts[attempt]? with
  | none => w
  | some a =>
      { w with throttle := w.throttle.settle a.key a.startedAt
               attempts := w.attempts.set attempt { a with settled := true } }

def addFailure (w : ThrottleLog) (key : String) (now : Time) : ThrottleLog :=
  { w with throttle := w.throttle.addFailure key now, clock := now, confirmed := w.confirm key now }

/-- What comes of a call. -/
def after (w : ThrottleLog) : ThrottleCall → ThrottleLog
  | .check _ now => { w with clock := now }
  | .begin key now later =>
      match w.throttle.begin key now later with
      | (throttle, .allowed) =>
          { w with throttle, clock := later, attempts := w.attempts ++
            [{ key, startedAt := later }] }
      | (throttle, .refused _) => { w with throttle, clock := later }
  | .fail attempt now =>
      match w.attempts[attempt]? with
      | none => { w with clock := now }
      | some a => (w.settle attempt).addFailure a.key now
  | .release attempt => w.settle attempt
  | .recordFailure key now => w.addFailure key now
  | .recordSuccess key now later =>
      { w with throttle := w.throttle.recordSuccess key now later
               clock := later
               confirmed := fun k =>
                 if k = key ∧ ¬ (w.throttle.entries.get? key).any (·.isLocked now) then []
                 else w.confirmed k }

/-- A timely call that meets the condition. -/
def Calls (C : ThrottleLog → ThrottleCall → Prop) (w w' : ThrottleLog) : Prop :=
  ∃ call, call.Timely w.clock ∧ C w call ∧ w' = w.after call

/-- Any number of them. -/
def Leads (C : ThrottleLog → ThrottleCall → Prop) : ThrottleLog → ThrottleLog → Prop :=
  Relation.ReflTransGen (Calls C)

/-- A new throttle. -/
def fresh (options : LoginThrottleOptions) (start : Time) : ThrottleLog :=
  { throttle := { options }, clock := start }

/-- Any call. -/
def anyCall : ThrottleLog → ThrottleCall → Prop := fun _ _ => True

end ThrottleLog

/-! ## Room -/

namespace LoginThrottle

variable {t t' : LoginThrottle} {key k : String} {now later clock : Time} {e : Entry}

theorem get?_dropUnlocked {m : KeyedMap Entry.key} {x : Entry} (h : m.get? k = some e)
    (hlocked : e.isLocked now = true) (hx : x.key = k → x = e) :
    (t.dropUnlocked now m x).get? k = some e := by
  unfold dropUnlocked
  split_ifs with hkeep
  · exact h
  · rw [KeyedMap.get?_erase_of_ne _ fun heq => hkeep (.inr (hx heq ▸ hlocked)), h]

theorem get?_foldl_dropUnlocked {m : KeyedMap Entry.key} {l : List Entry} (h : m.get? k = some e)
    (hlocked : e.isLocked now = true) (hl : ∀ x ∈ l, x.key = k → x = e) :
    (l.foldl (t.dropUnlocked now) m).get? k = some e := by
  induction l generalizing m with
  | nil => exact h
  | cons x l ih =>
    exact ih (get?_dropUnlocked h hlocked (hl x List.mem_cons_self))
      fun y hy => hl y (List.mem_cons_of_mem x hy)

/-- A lock is never dropped to make room. -/
theorem get?_makeRoom (h : t.entries.get? k = some e) (hlocked : e.isLocked now = true) :
    (t.makeRoom now).get? k = some e := by
  unfold makeRoom
  split_ifs with hsize
  · exact h
  · have hkeep : (t.entries.keep fun e => !t.isStale e now).get? k = some e :=
      KeyedMap.get?_keep h (by simp [isStale, hlocked])
    refine get?_foldl_dropUnlocked hkeep hlocked fun x hx hkey => ?_
    have hx := KeyedMap.get?_of_mem hx
    rw [hkey, hkeep] at hx
    exact (Option.some.inj hx).symm

theorem length_erase_le (m : KeyedMap Entry.key) (k : String) :
    (m.erase k).values.length ≤ m.values.length :=
  List.length_filter_le _ _

theorem length_makeRoom_le (t : LoginThrottle) (now : Time) :
    (t.makeRoom now).values.length ≤ t.size := by
  have hloop : ∀ (l : List Entry) (m : KeyedMap Entry.key),
      (l.foldl (t.dropUnlocked now) m).values.length ≤ m.values.length := by
    intro l
    induction l with
    | nil => exact fun m => Nat.le_refl _
    | cons x l ih =>
      intro m
      refine Nat.le_trans (ih _) ?_
      unfold dropUnlocked
      split_ifs
      · exact Nat.le_refl _
      · exact length_erase_le m x.key
  unfold makeRoom
  split_ifs
  · exact Nat.le_refl _
  · exact Nat.le_trans (hloop _ _) (List.length_filter_le _ _)

/-- Only entries that were there are there after room has been made. -/
theorem get?_of_makeRoom (h : (t.makeRoom now).get? k = some e) : t.entries.get? k = some e := by
  have hmem : ∀ (l : List Entry) (m : KeyedMap Entry.key),
      ∀ x ∈ (l.foldl (t.dropUnlocked now) m).values, x ∈ m.values := by
    intro l
    induction l with
    | nil => exact fun m x hx => hx
    | cons y l ih =>
      intro m x hx
      have hx := ih _ x hx
      unfold dropUnlocked at hx
      split_ifs at hx
      · exact hx
      · exact (KeyedMap.mem_erase.1 hx).1
  obtain ⟨hx, hkey⟩ := KeyedMap.get?_eq_some_iff.1 h
  refine KeyedMap.get?_eq_some_iff.2 ⟨?_, hkey⟩
  unfold makeRoom at hx
  split_ifs at hx
  · exact hx
  · exact (List.mem_filter.1 (hmem _ _ e hx)).1

theorem get?_entryFor (h : t.entries.get? k = some e) (hlocked : e.isLocked now = true) :
    (t.entryFor key now).1.get? k = some e := by
  unfold entryFor
  split
  · exact h
  · exact get?_makeRoom h hlocked

theorem entryFor_self (h : t.entries.get? key = some e) :
    t.entryFor key now = (t.entries, some e) := by
  simp [entryFor, h]

theorem key_entryFor (h : (t.entryFor key now).2 = some e) : e.key = key := by
  unfold entryFor at h
  split at h
  · next hget =>
    rw [← Option.some.inj h]
    exact KeyedMap.key_of_get? hget
  · simp only at h
    split_ifs at h
    rw [← Option.some.inj h]

/-! ## Size -/

theorem length_set_le (m : KeyedMap Entry.key) (e : Entry) :
    (m.set e).values.length ≤ m.values.length + 1 := by
  by_cases h : e.key ∈ m.values.map Entry.key
  · rw [KeyedMap.values_set_of_mem h, List.length_map]
    exact Nat.le_succ _
  · simp [KeyedMap.values_set_of_notMem h]

theorem length_set_of_get? {m : KeyedMap Entry.key} {x : Entry} (h : m.get? e.key = some x) :
    (m.set e).values.length = m.values.length := by
  have hmem : e.key ∈ m.values.map Entry.key :=
    List.mem_map.2 ⟨x, KeyedMap.mem_of_get? h, KeyedMap.key_of_get? h⟩
  rw [KeyedMap.values_set_of_mem hmem, List.length_map]

/-- There is room for whatever `entryFor` returns. -/
theorem length_set_entryFor_le {x : Entry} (hsize : t.size ≤ t.options.maxKeys)
    (h : (t.entryFor key now).2 = some e) (hx : x.key = e.key) :
    ((t.entryFor key now).1.set x).values.length ≤ t.options.maxKeys := by
  have hkey := key_entryFor h
  rcases hget : t.entries.get? key with _ | y
  · simp only [entryFor, hget] at h ⊢
    split_ifs at h with hroom
    have := length_set_le (t.makeRoom now) x
    omega
  · rw [entryFor_self hget, length_set_of_get? (x := y) (by rw [hx, hkey, hget])]
    exact hsize

theorem length_entryFor_le (t : LoginThrottle) (key : String) (now : Time) :
    (t.entryFor key now).1.values.length ≤ t.size := by
  unfold entryFor
  split
  · exact Nat.le_refl _
  · exact length_makeRoom_le t now

theorem size_begin_le (hsize : t.size ≤ t.options.maxKeys) :
    (t.begin key now later).1.size ≤ t.options.maxKeys := by
  unfold begin
  cases t.check key now with
  | refused s => exact hsize
  | allowed =>
    rcases hentry : t.entryFor key later with ⟨entries, _ | entry⟩
    · have := length_entryFor_le t key later
      simp only [hentry] at this ⊢
      exact Nat.le_trans this hsize
    · have hsnd : (t.entryFor key later).2 = some entry := by rw [hentry]
      have := length_set_entryFor_le
          (x := { entry with pending := entry.pending ++ [later] }) hsize hsnd rfl
      rw [hentry] at this
      exact this

theorem size_settle (startedAt : Time) : (t.settle key startedAt).size = t.size := by
  unfold settle
  split
  · rfl
  · next entry hget =>
    refine length_set_of_get? (x := entry) ?_
    rw [KeyedMap.key_of_get? hget, hget]

theorem options_settle (startedAt : Time) : (t.settle key startedAt).options = t.options := by
  unfold settle
  split <;> rfl

theorem size_addFailure_le (hsize : t.size ≤ t.options.maxKeys) :
    (t.addFailure key now).size ≤ t.options.maxKeys := by
  unfold addFailure
  rcases hentry : t.entryFor key now with ⟨entries, _ | entry⟩
  · have := length_entryFor_le t key now
    simp only [hentry] at this ⊢
    exact Nat.le_trans this hsize
  · have hsnd : (t.entryFor key now).2 = some entry := by rw [hentry]
    have hkey : (entry.failed t.options now).key = entry.key := by
      unfold Entry.failed
      dsimp only
      split <;> rfl
    have := length_set_entryFor_le hsize hsnd hkey
    rw [hentry] at this
    exact this

theorem size_recordSuccess_le (hsize : t.size ≤ t.options.maxKeys) :
    (t.recordSuccess key now later).size ≤ t.options.maxKeys := by
  unfold recordSuccess
  split
  · exact hsize
  · next entry hget =>
    split_ifs
    · exact hsize
    · exact Nat.le_trans (length_erase_le _ _) hsize
    · have hlen := length_set_of_get? (e := { entry with failures := [] }) (m := t.entries)
        (x := entry)
        (by rw [show ({ entry with failures := [] } : Entry).key = entry.key from rfl,
          KeyedMap.key_of_get? hget, hget])
      show (t.entries.set _).values.length ≤ _
      rw [hlen]
      exact hsize

end LoginThrottle

/-! ## Locks -/

namespace LoginThrottle

variable {t : LoginThrottle} {key k : String} {u now later : Time} {e : Entry}

/-- The key is locked until the time, or longer. -/
def Holds (t : LoginThrottle) (k : String) (u : Time) : Prop :=
  ∃ e, t.entries.get? k = some e ∧ u ≤ e.lockedUntil

theorem Holds.check (h : t.Holds k u) (hnow : now < u) : t.check k now ≠ .allowed := by
  obtain ⟨e, hget, hu⟩ := h
  have hlt : now < e.lockedUntil := Int.lt_of_lt_of_le hnow hu
  simp [LoginThrottle.check, hget, hlt]

theorem Holds.refused (h : t.Holds k u) (hnow : now < u) :
    (t.begin k now later).1 = t ∧ (t.begin k now later).2 ≠ .allowed := by
  have := h.check hnow
  unfold LoginThrottle.begin
  cases hcheck : t.check k now with
  | refused s => exact ⟨rfl, ThrottleResult.noConfusion⟩
  | allowed => exact absurd hcheck this

/-- Filing an entry under its key lifts no lock, if it does not lower the lock of that key. -/
theorem Holds.set {m : KeyedMap Entry.key} {x : Entry} (hm : m.get? k = some e)
    (hu : u ≤ e.lockedUntil) (hx : x.key = k → u ≤ x.lockedUntil) :
    ({ t with entries := m.set x } : LoginThrottle).Holds k u := by
  by_cases hkey : x.key = k
  · exact ⟨x, by rw [← hkey, KeyedMap.get?_set_self], hx hkey⟩
  · exact ⟨e, by rw [KeyedMap.get?_set_of_ne _ hkey, hm], hu⟩

/-- What `entryFor` returns for a locked key is its entry. -/
theorem entryFor_locked {entries : KeyedMap Entry.key} {entry : Entry}
    (hentry : t.entryFor key now = (entries, some entry)) (hget : t.entries.get? k = some e)
    (hkey : entry.key = k) : entry = e := by
  have hk : k = key := by
    rw [← hkey]
    exact key_entryFor (by rw [hentry])
  subst hk
  rw [entryFor_self hget] at hentry
  exact (Option.some.inj (Prod.mk.inj hentry).2).symm

theorem Holds.begin (h : t.Holds k u) (hlater : later < u) :
    (t.begin key now later).1.Holds k u := by
  obtain ⟨e, hget, hu⟩ := h
  have hlocked : e.isLocked later = true := decide_eq_true (Int.lt_of_lt_of_le hlater hu)
  have hkept : (t.entryFor key later).1.get? k = some e := get?_entryFor hget hlocked
  unfold LoginThrottle.begin
  cases t.check key now with
  | refused s => exact ⟨e, hget, hu⟩
  | allowed =>
    rcases hentry : t.entryFor key later with ⟨entries, _ | entry⟩
    · rw [hentry] at hkept
      exact ⟨e, hkept, hu⟩
    · rw [hentry] at hkept
      refine Holds.set hkept hu fun hkey => ?_
      rw [entryFor_locked hentry hget hkey]
      exact hu

theorem Holds.settle {startedAt : Time} (h : t.Holds k u) : (t.settle key startedAt).Holds k u := by
  obtain ⟨e, hget, hu⟩ := h
  unfold LoginThrottle.settle
  split
  · exact ⟨e, hget, hu⟩
  · next entry hentry =>
    refine Holds.set hget hu fun hkey => ?_
    have hk : key = k := by rw [← KeyedMap.key_of_get? hentry]; exact hkey
    rw [hk, hget] at hentry
    rw [← Option.some.inj hentry]
    exact hu

/-- A lock that begins later ends later. -/
theorem Holds.addFailure (h : t.Holds k u) (hnow : now < u) (hlock : u ≤ now + t.options.lockMs) :
    (t.addFailure key now).Holds k u := by
  obtain ⟨e, hget, hu⟩ := h
  have hlocked : e.isLocked now = true := decide_eq_true (Int.lt_of_lt_of_le hnow hu)
  have hkept : (t.entryFor key now).1.get? k = some e := get?_entryFor hget hlocked
  unfold LoginThrottle.addFailure
  rcases hentry : t.entryFor key now with ⟨entries, _ | entry⟩
  · rw [hentry] at hkept
    exact ⟨e, hkept, hu⟩
  · rw [hentry] at hkept
    refine Holds.set hkept hu fun hkey => ?_
    unfold Entry.failed at hkey ⊢
    dsimp only at hkey ⊢
    split_ifs at hkey ⊢
    · exact hlock
    · rw [entryFor_locked hentry hget hkey]
      exact hu

theorem Holds.recordSuccess (h : t.Holds k u) (hnow : now < u) :
    (t.recordSuccess key now later).Holds k u := by
  obtain ⟨e, hget, hu⟩ := h
  unfold LoginThrottle.recordSuccess
  split
  · exact ⟨e, hget, hu⟩
  · next entry hentry =>
    by_cases hkey : key = k
    · rw [hkey, hget] at hentry
      rw [← Option.some.inj hentry, if_pos (Int.lt_of_lt_of_le hnow hu)]
      exact ⟨e, hget, hu⟩
    · have hne : entry.key ≠ k := by rw [KeyedMap.key_of_get? hentry]; exact hkey
      split_ifs
      · exact ⟨e, hget, hu⟩
      · exact ⟨e, by rw [KeyedMap.get?_erase_of_ne _ hkey, hget], hu⟩
      · exact Holds.set hget hu fun hk => absurd hk hne

/-- No lock lasts longer than that; `0` stands for an entry that has not been locked. -/
def LocksBy (m : KeyedMap Entry.key) (u : Time) : Prop :=
  ∀ e ∈ m.values, e.lockedUntil = 0 ∨ e.lockedUntil ≤ u

theorem LocksBy.set {m : KeyedMap Entry.key} (h : LocksBy m u)
    (he : e.lockedUntil = 0 ∨ e.lockedUntil ≤ u) : LocksBy (m.set e) u := by
  intro x hx
  rcases KeyedMap.mem_set.1 hx with rfl | ⟨hx, -⟩
  · exact he
  · exact h x hx

theorem LocksBy.entryFor (h : LocksBy t.entries u) (key : String) (now : Time) :
    LocksBy (t.entryFor key now).1 u ∧
      ∀ e, (t.entryFor key now).2 = some e → e.lockedUntil = 0 ∨ e.lockedUntil ≤ u := by
  rcases hget : t.entries.get? key with _ | x
  · simp only [LoginThrottle.entryFor, hget]
    constructor
    · intro e he
      exact h e (KeyedMap.mem_of_get? (get?_of_makeRoom (KeyedMap.get?_of_mem he)))
    · intro e he
      split_ifs at he
      exact .inl (by rw [← Option.some.inj he])
  · rw [entryFor_self hget]
    refine ⟨h, fun e he => ?_⟩
    rw [← Option.some.inj he]
    exact h x (KeyedMap.mem_of_get? hget)

theorem LocksBy.begin (h : LocksBy t.entries u) : LocksBy (t.begin key now later).1.entries u := by
  unfold LoginThrottle.begin
  cases t.check key now with
  | refused s => exact h
  | allowed =>
    have hfor := h.entryFor key later
    rcases hentry : t.entryFor key later with ⟨entries, _ | entry⟩
    · exact (hentry ▸ hfor).1
    · rw [hentry] at hfor
      exact hfor.1.set (hfor.2 entry rfl)

theorem LocksBy.settle {startedAt : Time} (h : LocksBy t.entries u) :
    LocksBy (t.settle key startedAt).entries u := by
  unfold LoginThrottle.settle
  split
  · exact h
  · next entry hget => exact h.set (h entry (KeyedMap.mem_of_get? hget))

theorem LocksBy.addFailure (h : LocksBy t.entries u) (hlock : now + t.options.lockMs ≤ u) :
    LocksBy (t.addFailure key now).entries u := by
  unfold LoginThrottle.addFailure
  have hfor := h.entryFor key now
  rcases hentry : t.entryFor key now with ⟨entries, _ | entry⟩
  · exact (hentry ▸ hfor).1
  · rw [hentry] at hfor
    refine hfor.1.set ?_
    unfold Entry.failed
    dsimp only
    split_ifs
    · exact .inr hlock
    · exact hfor.2 entry rfl

theorem LocksBy.recordSuccess (h : LocksBy t.entries u) :
    LocksBy (t.recordSuccess key now later).entries u := by
  unfold LoginThrottle.recordSuccess
  split
  · exact h
  · next entry hget =>
    split_ifs
    · exact h
    · exact fun e he => h e (KeyedMap.mem_erase.1 he).1
    · exact h.set (h entry (KeyedMap.mem_of_get? hget))

theorem options_begin : (t.begin key now later).1.options = t.options := by
  unfold LoginThrottle.begin
  cases t.check key now with
  | refused s => rfl
  | allowed => rcases hentry : t.entryFor key later with ⟨entries, _ | entry⟩ <;> simp

theorem options_addFailure : (t.addFailure key now).options = t.options := by
  unfold LoginThrottle.addFailure
  rcases t.entryFor key now with ⟨entries, _ | entry⟩ <;> rfl

theorem options_recordSuccess : (t.recordSuccess key now later).options = t.options := by
  unfold LoginThrottle.recordSuccess
  split
  · rfl
  · split_ifs <;> rfl

end LoginThrottle

/-! ## Every run -/

namespace ThrottleLog

variable {w w' : ThrottleLog} {call : ThrottleCall} {C : ThrottleLog → ThrottleCall → Prop}

/-- What a call does to the throttle. -/
theorem throttle_settle {i : Nat} : (w.settle i).throttle = w.throttle ∨
    ∃ a, w.attempts[i]? = some a ∧ (w.settle i).throttle = w.throttle.settle a.key a.startedAt := by
  unfold settle
  split
  · exact .inl rfl
  · next a ha => exact .inr ⟨a, ha, rfl⟩

theorem clock_settle (i : Nat) : (w.settle i).clock = w.clock := by
  unfold settle
  split <;> rfl

/-- A property that every part of a call keeps is kept by the call.  A failure is added at a time
that is not before the clock. -/
theorem keeps_after {P : LoginThrottle → Prop} (htimely : call.Timely w.clock) (hP : P w.throttle)
    (hbegin : ∀ t key now later, P t → later ≤ (w.after call).clock → P (t.begin key now later).1)
    (hsettle : ∀ t key startedAt, P t → P (t.settle key startedAt))
    (hfail : ∀ t key now, P t → w.clock ≤ now → now = (w.after call).clock →
    P (t.addFailure key now))
    (hsuccess : ∀ t key now later, P t → now ≤ (w.after call).clock →
    P (t.recordSuccess key now later)) :
    P (w.after call).throttle := by
  have hgives : ∀ i, P (w.settle i).throttle := by
    intro i
    rcases throttle_settle (w := w) (i := i) with h | ⟨a, -, h⟩
    · rw [h]
      exact hP
    · rw [h]
      exact hsettle _ _ _ hP
  cases call with
  | check key now => exact hP
  | begin key now later =>
    rcases hb : w.throttle.begin key now later with ⟨t, _ | s⟩
    · have := hbegin _ key now later hP (by simp [after, hb])
      simpa [after, hb] using this
    · have := hbegin _ key now later hP (by simp [after, hb])
      simpa [after, hb] using this
  | fail i now =>
    rcases ha : w.attempts[i]? with _ | a
    · simpa [after, ha] using hP
    · have := hfail _ a.key now (hgives i) htimely (by simp [after, ha, addFailure])
      simpa [after, ha, addFailure] using this
  | release i => exact hgives i
  | recordFailure key now => exact hfail _ key now hP htimely rfl
  | recordSuccess key now later => exact hsuccess _ key now later hP htimely.2

theorem options_after (htimely : call.Timely w.clock) :
    (w.after call).throttle.options = w.throttle.options := by
  refine keeps_after (P := fun t => t.options = w.throttle.options) htimely rfl ?_ ?_ ?_ ?_
  · intro t key now later h _
    rw [LoginThrottle.options_begin, h]
  · intro t key startedAt h
    rw [LoginThrottle.options_settle, h]
  · intro t key now h _ _
    rw [LoginThrottle.options_addFailure, h]
  · intro t key now later h _
    rw [LoginThrottle.options_recordSuccess, h]

theorem clock_after (htimely : call.Timely w.clock) : w.clock ≤ (w.after call).clock := by
  cases call with
  | check key now => exact htimely
  | begin key now later =>
    have hle : w.clock ≤ later := Int.le_trans htimely.1 htimely.2
    rcases hb : w.throttle.begin key now later with ⟨t, _ | s⟩ <;> simpa [after, hb] using hle
  | fail i now =>
    have hle : w.clock ≤ now := htimely
    rcases ha : w.attempts[i]? with _ | a <;> simpa [after, ha, addFailure] using hle
  | release i => exact Int.le_of_eq (clock_settle i).symm
  | recordFailure key now => exact htimely
  | recordSuccess key now later => exact Int.le_trans htimely.1 htimely.2

theorem options_leads (h : Leads C w w') : w'.throttle.options = w.throttle.options := by
  induction h with
  | refl => rfl
  | tail _ hcall ih =>
    obtain ⟨call, htimely, -, rfl⟩ := hcall
    rw [options_after htimely, ih]

theorem clock_leads (h : Leads C w w') : w.clock ≤ w'.clock := by
  induction h with
  | refl => exact Int.le_refl _
  | tail _ hcall ih =>
    obtain ⟨call, htimely, -, rfl⟩ := hcall
    exact Int.le_trans ih (clock_after htimely)

theorem size_leads (h : Leads C w w') (hsize : w.throttle.size ≤ w.throttle.options.maxKeys) :
    w'.throttle.size ≤ w'.throttle.options.maxKeys := by
  induction h with
  | refl => exact hsize
  | @tail w' _ _ hcall ih =>
    obtain ⟨call, htimely, -, rfl⟩ := hcall
    refine keeps_after (P := fun t => t.size ≤ t.options.maxKeys) htimely ih ?_ ?_ ?_ ?_
    · intro t key now later h _
      rw [LoginThrottle.options_begin]
      exact LoginThrottle.size_begin_le h
    · intro t key startedAt h
      rw [LoginThrottle.options_settle, LoginThrottle.size_settle]
      exact h
    · intro t key now h _ _
      rw [LoginThrottle.options_addFailure]
      exact LoginThrottle.size_addFailure_le h
    · intro t key now later h _
      rw [LoginThrottle.options_recordSuccess]
      exact LoginThrottle.size_recordSuccess_le h

/-- No lock ends later than one that would begin now. -/
def LocksInTime (w : ThrottleLog) : Prop :=
  LoginThrottle.LocksBy w.throttle.entries (w.clock + w.throttle.options.lockMs)

theorem LocksInTime.leads (h : Leads C w w') (hlocks : w.LocksInTime) : w'.LocksInTime := by
  induction h with
  | refl => exact hlocks
  | @tail w' _ _ hcall ih =>
    obtain ⟨call, htimely, -, rfl⟩ := hcall
    have hclock := clock_after htimely
    have hle : LoginThrottle.LocksBy w'.throttle.entries
        ((w'.after call).clock + w'.throttle.options.lockMs) := fun e he =>
      (ih e he).imp_right fun h => Int.le_trans h (Int.add_le_add_right hclock _)
    unfold LocksInTime
    rw [options_after htimely]
    refine (keeps_after (P := fun t =>
      t.options = w'.throttle.options ∧ LoginThrottle.LocksBy t.entries
      ((w'.after call).clock + w'.throttle.options.lockMs)) htimely ⟨rfl, hle⟩ ?_ ?_ ?_ ?_).2
    · intro t key now later h _
      exact ⟨LoginThrottle.options_begin.trans h.1, h.2.begin⟩
    · intro t key startedAt h
      exact ⟨(LoginThrottle.options_settle _).trans h.1, h.2.settle⟩
    · intro t key now h _ hnow
      refine ⟨LoginThrottle.options_addFailure.trans h.1, h.2.addFailure ?_⟩
      refine Int.le_of_eq ?_
      rw [h.1, hnow]
    · intro t key now later h _
      exact ⟨LoginThrottle.options_recordSuccess.trans h.1, h.2.recordSuccess⟩

/-- A lock is there until its time has come. -/
theorem holds_leads {key : String} {u : Time} (h : Leads C w w') (hholds : w.throttle.Holds key u)
    (hlock : u ≤ w.clock + w.throttle.options.lockMs) (hclock : w'.clock < u) :
    w'.throttle.Holds key u := by
  induction h with
  | refl => exact hholds
  | @tail w' _ hleads hcall ih =>
    obtain ⟨call, htimely, -, rfl⟩ := hcall
    have hbefore := clock_after htimely
    have hstart := clock_leads hleads
    have hopts := options_leads hleads
    refine (keeps_after (P := fun t => t.options = w.throttle.options ∧ t.Holds key u) htimely
      ⟨hopts, ih (Int.lt_of_le_of_lt hbefore hclock)⟩ ?_ ?_ ?_ ?_).2
    · intro t k now later h hlater
      exact ⟨LoginThrottle.options_begin.trans h.1, h.2.begin (Int.lt_of_le_of_lt hlater hclock)⟩
    · intro t k startedAt h
      exact ⟨(LoginThrottle.options_settle _).trans h.1, h.2.settle⟩
    · intro t k now h hle hnow
      refine ⟨LoginThrottle.options_addFailure.trans h.1, h.2.addFailure (hnow ▸ hclock) ?_⟩
      rw [h.1]
      exact Int.le_trans hlock (Int.add_le_add_right (Int.le_trans hstart hle) _)
    · intro t k now later h hnow
      exact ⟨LoginThrottle.options_recordSuccess.trans h.1,
        h.2.recordSuccess (Int.lt_of_le_of_lt hnow hclock)⟩

/-- In every run of a throttle it tracks at most `maxKeys` keys, and a key that is locked until some
time is refused until then, whatever is called in between. -/
theorem locks_hold (options : LoginThrottleOptions) (start : Time) (w : ThrottleLog)
    (hw : Leads anyCall (fresh options start) w) :
    w.throttle.size ≤ options.maxKeys ∧
      ∀ e ∈ w.throttle.entries.values, e.lockedUntil ≠ 0 →
        ∀ w', Leads anyCall w w' → ∀ now later, w'.clock ≤ now → now < e.lockedUntil →
          w'.throttle.check e.key now ≠ .allowed ∧
            (w'.throttle.begin e.key now later).2 ≠ .allowed := by
  have hopts : w.throttle.options = options := options_leads hw
  constructor
  · have hsize := size_leads hw (Nat.zero_le _)
    rw [hopts] at hsize
    exact hsize
  · intro e he hne w' hw' now later hclock hnow
    have hlocks : w.LocksInTime := LocksInTime.leads hw (by intro e he; cases he)
    have hholds : w.throttle.Holds e.key e.lockedUntil :=
        ⟨e, KeyedMap.get?_of_mem he, Int.le_refl _⟩
    have hstill := holds_leads hw' hholds ((hlocks e he).resolve_left hne)
      (Int.lt_of_le_of_lt hclock hnow)
    exact ⟨hstill.check hnow, (hstill.refused hnow).2⟩

/-- One failure locks a key; the lock is there in the middle of a sign-in with another key. -/
theorem locks_hold_run :
    let options : LoginThrottleOptions :=
      { maxFailures := 1, windowMs := 1000, lockMs := 500, maxKeys := 1 }
    ((((fresh options 10).after (.recordFailure "ada" 20)).after
    (.begin "bob" 30 31)).throttle.check
      "ada" 519) ≠ .allowed := by
  intro options
  have hfirst : Calls anyCall (fresh options 10)
      ((fresh options 10).after (.recordFailure "ada" 20)) :=
    ⟨_, by decide, trivial, rfl⟩
  have hsecond : Calls anyCall ((fresh options 10).after (.recordFailure "ada" 20))
      (((fresh options 10).after (.recordFailure "ada" 20)).after (.begin "bob" 30 31)) :=
    ⟨_, by decide, trivial, rfl⟩
  have hmem : (⟨"ada", [], [], 520⟩ : Entry) ∈
      ((fresh options 10).after (.recordFailure "ada" 20)).throttle.entries.values := by
    have : ((fresh options 10).after (.recordFailure "ada" 20)).throttle.entries.values =
        [⟨"ada", [], [], 520⟩] := rfl
    simp [this]
  exact ((locks_hold options 10 _ (Relation.ReflTransGen.single hfirst)).2 _ hmem (by decide) _
    (Relation.ReflTransGen.single hsecond) 519 519 (by decide) (by decide)).1

end ThrottleLog

end NexusWorkflow
