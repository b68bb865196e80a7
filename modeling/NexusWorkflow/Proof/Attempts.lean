import NexusWorkflow.Lib.Indexed
import NexusWorkflow.Model.TaskWorker

/-!
# Attempts

A worker starts the handler at most once for each attempt of a token, at most `maxAttempts` times
(if this is not less than one), one after the other, and never after it has set out to complete the
token or to fail it.  The keys in flight of a token are those of the attempts up to some number, and
whatever may add a key is either too late, or it is the next attempt and nothing else goes on for
the token (`Token`).
-/

namespace NexusWorkflow.TaskWorkers

/-! ## What is promised -/

def Event.attemptOf (tokenId : String) : Event → Option Nat
  | .started t attempt => if t = tokenId then some attempt else none
  | .settled _ => none

/-- The attempts for which the handler has been started. -/
def TaskWorker.attempts (w : TaskWorker) (tokenId : String) : List Nat :=
  w.log.filterMap (Event.attemptOf tokenId)

structure AtMostOnce (w : TaskWorker) : Prop where
  once : ∀ t, (w.attempts t).Nodup
  bounded : ∀ t, ((w.attempts t).length : Int) ≤ w.maxAttempts
  alone : ∀ (i j : Nat) (r r' : Run), w.runs[i]? = some r → w.runs[j]? = some r' →
    r.phase = .executing → r'.phase = .executing →
    r.tokenId = r'.tokenId → i = j
  final : w.log.Pairwise fun e e' => ∀ t attempt, e = .settled t → e' ≠ .started t attempt

/-! ## The invariant -/

/-- No attempt of the token is going on. -/
def TaskWorker.Idle (w : TaskWorker) (t : String) : Prop :=
  ∀ (i : Nat) (r : Run), w.runs[i]? = some r → r.tokenId = t → r.phase = .over

/-- The attempt may begin: it is the next one, and nothing else goes on. -/
structure TaskWorker.Next (w : TaskWorker) (t : String) (k a : Nat) : Prop where
  eq : a = k + 1
  positive : 1 ≤ k
  idle : w.Idle t
  unsettled : .settled t ∉ w.log
  bound : (a : Int) ≤ w.maxAttempts

/-- The attempts up to `k` have begun. -/
structure Token (w : TaskWorker) (t : String) (k : Nat) : Prop where
  keys : ∀ a, (t, a) ∈ w.inflightKeys ↔ 1 ≤ a ∧ a ≤ k
  bound : (k : Int) ≤ max w.maxAttempts 1
  run : ∀ (i : Nat) (r : Run), w.runs[i]? = some r → r.tokenId = t → r.phase ≠ .over →
    r.attempt = k ∧ 1 ≤ k
  unique : ∀ (i j : Nat) (r r' : Run), w.runs[i]? = some r → w.runs[j]? = some r' → r.tokenId = t →
    r'.tokenId = t →
    r.phase ≠ .over → r'.phase ≠ .over → i = j
  map : ∀ a, w.attemptByToken.get? t = some (t, a) → a ≤ k ∧ 1 ≤ a ∨ w.Next t k a
  timers : ∀ a, (t, a) ∈ w.timers → a ≤ k ∧ 1 ≤ a ∨ w.Next t k a
  started : ∀ a ∈ w.attempts t, 1 ≤ a ∧ a ≤ k
  fresh : ∀ (i : Nat) (r : Run), w.runs[i]? = some r → r.tokenId = t → r.phase = .loading ∨
    r.phase = .scoping → k ∉ w.attempts t
  settled : .settled t ∈ w.log → 1 ≤ k ∧ ∀ (i : Nat) (r : Run), w.runs[i]? = some r →
    r.tokenId = t → r.phase = .finishing ∨ r.phase = .over

structure Kept (w : TaskWorker) : Prop where
  token : ∀ t, ∃ k, Token w t k
  once : ∀ t, (w.attempts t).Nodup
  final : w.log.Pairwise fun e e' => ∀ t attempt, e = .settled t → e' ≠ .started t attempt

variable {w w' : TaskWorker} {t u : String} {k i : Nat} {r : Run} {phase : Phase}

/-- A token that the step is not about. -/
theorem Token.frame (h : Token w u k) (hmax : w'.maxAttempts = w.maxAttempts)
    (hkeys : ∀ a, (u, a) ∈ w'.inflightKeys ↔ (u, a) ∈ w.inflightKeys)
    (hruns : ∀ (i : Nat) (r : Run), w'.runs[i]? = some r → r.tokenId = u → w.runs[i]? = some r)
    (hmap : w'.attemptByToken.get? u = w.attemptByToken.get? u)
    (htimers : ∀ a, (u, a) ∈ w'.timers → (u, a) ∈ w.timers)
    (hattempts : w'.attempts u = w.attempts u) (hlog : .settled u ∈ w'.log → .settled u ∈ w.log) :
    Token w' u k := by
  have hnext : ∀ a, w.Next u k a → w'.Next u k a := fun a ha =>
    ⟨ha.eq, ha.positive, fun i r hr ht => ha.idle i r (hruns i r hr ht) ht,
      fun hmem => ha.unsettled (hlog hmem),
      hmax ▸ ha.bound⟩
  refine ⟨fun a => (hkeys a).trans (h.keys a), hmax ▸ h.bound,
    fun i r hr ht => h.run i r (hruns i r hr ht) ht,
    fun i j r r' hr hr' ht ht' => h.unique i j r r' (hruns i r hr ht) (hruns j r' hr' ht') ht ht',
    fun a ha => (h.map a (hmap ▸ ha)).imp_right (hnext a), fun a ha =>
      (h.timers a (htimers a ha)).imp_right (hnext a),
    fun a ha => h.started a (hattempts ▸ ha), fun i r hr ht hphase => ?_, fun hmem => ?_⟩
  · rw [hattempts]
    exact h.fresh i r (hruns i r hr ht) ht hphase
  · obtain ⟨hpositive, hsettled⟩ := h.settled (hlog hmem)
    exact ⟨hpositive, fun i r hr ht => hsettled i r (hruns i r hr ht) ht⟩

/-! ## An attempt begins -/

/-- The next attempt of a token begins. -/
theorem Token.run_next (h : Token w t k) (hidle : w.Idle t) (hunsettled : .settled t ∉ w.log)
    (hbound : ((k + 1 : Nat) : Int) ≤ max w.maxAttempts 1) : Token (w.run t (k + 1)) t (k + 1) := by
  have hruns : ∀ (i : Nat) (r : Run), (w.run t (k + 1)).runs[i]? = some r → r.tokenId = t →
      r.phase ≠ .over →
      i = w.runs.length ∧ r = ⟨t, k + 1, .loading⟩ := fun i r hr ht hlive =>
    (Indexed.getElem?_append_singleton hr).resolve_left fun hold => hlive (hidle i r hold ht)
  have hlt : ∀ a, k + 1 ∈ w.attempts t → a ∉ w.attempts t :=
      fun a hmem => absurd (h.started _ hmem).2 (by omega)
  refine ⟨fun a => ?_, hbound, fun i r hr ht hlive => ?_,
    fun i j r r' hr hr' ht ht' hlive hlive' => ?_,
    fun a ha => .inl ?_, fun a ha => .inl ?_, fun a ha => ?_, fun i r hr ht _ hmem =>
      hlt _ hmem hmem,
    fun hmem => absurd hmem hunsettled⟩
  · have hmem : (t, a) ∈ (w.run t (k + 1)).inflightKeys ↔ (t, a) ∈ w.inflightKeys ∨ a = k + 1 := by
      simp [TaskWorker.run]
    rw [hmem, h.keys a]
    omega
  · obtain ⟨-, rfl⟩ := hruns i r hr ht hlive
    exact ⟨rfl, by omega⟩
  · exact (hruns i r hr ht hlive).1.trans (hruns j r' hr' ht' hlive').1.symm
  · rcases h.map a ha with ha | ha
    · omega
    · have := ha.eq
      omega
  · rcases h.timers a ha with ha | ha
    · omega
    · have := ha.eq
      omega
  · have := h.started a ha
    omega

theorem Token.run_other (h : Token w u k) (htu : t ≠ u) (a : Nat) : Token (w.run t a) u k := by
  refine h.frame rfl (fun b => ?_)
    (fun i r hr hu => (Indexed.getElem?_append_singleton hr).resolve_right fun ⟨_, hnew⟩ => ?_)
    rfl (fun _ => id) rfl id
  · simp [TaskWorker.run, Ne.symm htu]
  · rw [hnew] at hu
    exact htu hu

/-- The map says which attempt has begun. -/
theorem Token.set_self (h : Token w t k) {a : Nat} (ha : 1 ≤ a) (hk : a ≤ k) :
    Token { w with attemptByToken := w.attemptByToken.set (t, a) } t k := by
  refine ⟨h.keys, h.bound, h.run, h.unique, fun b hb => .inl ?_,
    fun b hb => (h.timers b hb).imp_right fun hn => ?_,
    h.started, h.fresh, h.settled⟩
  · have hself : (w.attemptByToken.set (t, a)).get? t = some (t, a) :=
      KeyedMap.get?_set_self _ (t, a)
    have heq := Option.some.inj (hself.symm.trans hb)
    cases heq
    exact ⟨hk, ha⟩
  · exact ⟨hn.eq, hn.positive, hn.idle, hn.unsettled, hn.bound⟩

theorem Token.set_other (h : Token w u k) (htu : t ≠ u) (a : Nat) :
    Token { w with attemptByToken := w.attemptByToken.set (t, a) } u k :=
  h.frame rfl (fun _ => Iff.rfl) (fun _ _ hr _ => hr) (KeyedMap.get?_set_of_ne _ htu)
    (fun _ => id) rfl id

/-- A key that is not in flight is that of the next attempt. -/
theorem Token.next_of_notMem (h : Token w t k) {a : Nat} (ha : a ≤ k ∧ 1 ≤ a ∨ w.Next t k a)
    (hkey : (t, a) ∉ w.inflightKeys) : w.Next t k a :=
  ha.resolve_left fun hold => hkey ((h.keys a).2 ⟨hold.2, hold.1⟩)

theorem Kept.run (h : Kept w) {a : Nat} (ha : ∀ k, Token w t k → Token (w.run t a) t a) :
    Kept (w.run t a) := by
  refine ⟨fun u => ?_, h.once, h.final⟩
  obtain ⟨k, hk⟩ := h.token u
  by_cases htu : t = u
  · subst htu
    exact ⟨a, ha k hk⟩
  · exact ⟨k, hk.run_other htu a⟩

theorem Kept.dispatch (h : Kept w) (t : String) : Kept (w.dispatch t) := by
  unfold TaskWorker.dispatch
  dsimp only
  split_ifs with hkey
  · exact h
  · obtain ⟨k, hk⟩ := h.token t
    have hbegin : ∀ a, ((w.attemptByToken.get? t).map Prod.snd).getD 1 = a →
        ∃ k, Token (w.run t a) t k ∧ 1 ≤ a ∧ a ≤ k := by
      rintro a rfl
      cases hget : w.attemptByToken.get? t with
      | none =>
        rw [hget] at hkey
        have hzero : k = 0 := by
          by_contra hne
          exact hkey ((hk.keys 1).2 ⟨by decide, by omega⟩)
        subst hzero
        have hidle : w.Idle t := fun i r hr ht => by
          by_contra hlive
          exact absurd (hk.run i r hr ht hlive).2 (by decide)
        exact ⟨1, hk.run_next hidle (fun hmem => absurd (hk.settled hmem).1 (by decide))
          (Int.le_max_right ..), by decide,
          by decide⟩
      | some entry =>
        obtain ⟨t', a⟩ := entry
        obtain rfl : t' = t := KeyedMap.key_of_get? hget
        rw [hget] at hkey
        have hnext := hk.next_of_notMem (hk.map a hget) hkey
        have heq : a = k + 1 := hnext.eq
        subst heq
        exact ⟨k + 1, hk.run_next hnext.idle hnext.unsettled
          (Int.le_trans hnext.bound (Int.le_max_left ..)), by
          change 1 ≤ k + 1
          omega, Nat.le_refl _⟩
    obtain ⟨k', hk', hone, hle⟩ := hbegin _ rfl
    refine ⟨fun u => ?_, h.once, h.final⟩
    by_cases htu : t = u
    · subst htu
      exact ⟨k', hk'.set_self hone hle⟩
    · obtain ⟨ku, hku⟩ := h.token u
      exact ⟨ku, (hku.run_other htu _).set_other htu _⟩

/-! ## An attempt goes on -/

/-- The attempt goes on, and this is in the log then. -/
def TaskWorker.advance (w : TaskWorker) (i : Nat) (r : Run) (phase : Phase) (events : List Event) :
    TaskWorker :=
  { w.goOn i r phase with log := w.log ++ events }

variable {events : List Event}

theorem getElem?_goOn {j : Nat} {r' : Run} (h : (w.goOn i r phase).runs[j]? = some r') :
    j = i ∧ r' = { r with phase } ∨ j ≠ i ∧ w.runs[j]? = some r' :=
  Indexed.getElem?_set h

theorem attempts_advance (u : String) :
    (w.advance i r phase events).attempts u = w.attempts u ++ events.filterMap
    (Event.attemptOf u) :=
  List.filterMap_append ..

/-- While an attempt goes on, none is next. -/
theorem Token.le_of_live (hr : w.runs[i]? = some r) (ht : r.tokenId = t) (hlive : r.phase ≠ .over)
    {a : Nat} (ha : a ≤ k ∧ 1 ≤ a ∨ w.Next t k a) : a ≤ k ∧ 1 ≤ a :=
  ha.resolve_right fun hnext => hlive (hnext.idle i r hr ht)

theorem Token.advance_self (h : Token w t k) (hr : w.runs[i]? = some r) (ht : r.tokenId = t)
    (hlive : r.phase ≠ .over) (hstarted : ∀ a ∈ events.filterMap (Event.attemptOf t), a = k)
    (hfresh : phase = .loading ∨ phase = .scoping → k ∉ w.attempts t ∧
    events.filterMap (Event.attemptOf t) = [])
    (hsettled : .settled t ∈ w.log ++ events → phase = .finishing ∨ phase = .over) :
    Token (w.advance i r phase events) t k := by
  obtain ⟨hattempt, hpositive⟩ := h.run i r hr ht hlive
  -- every other attempt of the token is over
  have hother : ∀ (j : Nat) (r' : Run), j ≠ i → w.runs[j]? = some r' → r'.tokenId = t →
      r'.phase = .over := by
    intro j r' hji hr' ht'
    by_contra hlive'
    exact hji (h.unique j i r' r hr' hr ht' ht hlive' hlive)
  refine ⟨h.keys, h.bound, fun j r' hr' ht' hlive' => ?_,
    fun j j' r' r'' hr' hr'' ht' ht'' hlive' hlive'' => ?_,
    fun a ha => .inl (le_of_live hr ht hlive (h.map a ha)), fun a ha =>
      .inl (le_of_live hr ht hlive (h.timers a ha)),
    fun a ha => ?_, fun j r' hr' ht' hphase => ?_, fun hmem => ⟨hpositive, fun j r' hr' ht' => ?_⟩⟩
  · rcases getElem?_goOn hr' with ⟨-, rfl⟩ | ⟨hji, hold⟩
    · exact ⟨hattempt, hpositive⟩
    · exact absurd (hother j r' hji hold ht') hlive'
  · have hself : ∀ (j : Nat) (r' : Run), (w.goOn i r phase).runs[j]? = some r' → r'.tokenId = t →
      r'.phase ≠ .over →
        j = i := by
      intro j r' hr' ht' hlive'
      rcases getElem?_goOn hr' with ⟨hji, -⟩ | ⟨hji, hold⟩
      · exact hji
      · exact absurd (hother j r' hji hold ht') hlive'
    exact (hself j r' hr' ht' hlive').trans (hself j' r'' hr'' ht'' hlive'').symm
  · rw [attempts_advance, List.mem_append] at ha
    rcases ha with ha | ha
    · exact h.started a ha
    · rw [hstarted a ha]
      exact ⟨hpositive, Nat.le_refl k⟩
  · rcases getElem?_goOn hr' with ⟨-, rfl⟩ | ⟨hji, hold⟩
    · obtain ⟨hnew, hnil⟩ := hfresh hphase
      rw [attempts_advance, hnil, List.append_nil]
      exact hnew
    · have hover := hother j r' hji hold ht'
      rw [hover] at hphase
      rcases hphase with hphase | hphase <;> cases hphase
  · rcases getElem?_goOn hr' with ⟨-, rfl⟩ | ⟨hji, hold⟩
    · exact hsettled hmem
    · exact .inr (hother j r' hji hold ht')

theorem Token.advance_other (h : Token w u k) (hu : r.tokenId ≠ u)
    (hattempts : events.filterMap (Event.attemptOf u) = []) (hsettled : .settled u ∉ events) :
    Token (w.advance i r phase events) u k := by
  refine h.frame rfl (fun _ => Iff.rfl) (fun j r' hr' hu' => ?_) rfl (fun _ => id) ?_ fun hmem => ?_
  · rcases getElem?_goOn hr' with ⟨-, rfl⟩ | ⟨-, hold⟩
    · exact absurd hu' hu
    · exact hold
  · rw [attempts_advance, hattempts, List.append_nil]
  · exact (List.mem_append.1 hmem).resolve_right hsettled

namespace Kept

theorem goOn (h : Kept w) (hr : w.runs[i]? = some r) (hlive : r.phase ≠ .over)
    (hphase : phase = .over ∨ phase = .scoping ∧ r.phase = .loading) : Kept (w.goOn i r phase) := by
  have hsame : w.goOn i r phase = w.advance i r phase [] := by
      simp [TaskWorker.advance, TaskWorker.goOn]
  rw [hsame]
  refine ⟨fun u => ?_, fun u => ?_, by simpa [TaskWorker.advance, TaskWorker.goOn] using h.final⟩
  · obtain ⟨k, hk⟩ := h.token u
    by_cases hu : r.tokenId = u
    · refine ⟨k, hk.advance_self hr hu hlive (fun a ha => absurd ha List.not_mem_nil)
        (fun hp => ?_) fun hmem => ?_⟩
      · rcases hphase with rfl | ⟨-, hloading⟩
        · rcases hp with hp | hp <;> cases hp
        · exact ⟨hk.fresh i r hr hu (.inl hloading), rfl⟩
      · rcases hphase with rfl | ⟨-, hloading⟩
        · exact .inr rfl
        · have hover := (hk.settled (by simpa using hmem)).2 i r hr hu
          rw [hloading] at hover
          rcases hover with hover | hover <;> cases hover
    · exact ⟨k, hk.advance_other hu rfl List.not_mem_nil⟩
  · rw [attempts_advance, List.filterMap_nil, List.append_nil]
    exact h.once u

/-- The handler is started. -/
theorem start (h : Kept w) (hr : w.runs[i]? = some r) (hscoping : r.phase = .scoping) :
    Kept (w.advance i r .executing [.started r.tokenId r.attempt]) := by
  have hlive : r.phase ≠ .over := by rw [hscoping]; decide
  obtain ⟨kt, hkt⟩ := h.token r.tokenId
  obtain ⟨hattempt, -⟩ := hkt.run i r hr rfl hlive
  have hunsettled : .settled r.tokenId ∉ w.log := fun hmem => by
    have hover := (hkt.settled hmem).2 i r hr rfl
    rw [hscoping] at hover
    rcases hover with hover | hover <;> cases hover
  have hself : [Event.started r.tokenId r.attempt].filterMap (Event.attemptOf r.tokenId) =
      [r.attempt] := by
    simp [Event.attemptOf]
  have hothers : ∀ u, r.tokenId ≠ u →
      [Event.started r.tokenId r.attempt].filterMap (Event.attemptOf u) = [] := by
    intro u hu
    simp [Event.attemptOf, hu]
  refine ⟨fun u => ?_, fun u => ?_, ?_⟩
  · by_cases hu : r.tokenId = u
    · subst hu
      refine ⟨kt, hkt.advance_self hr rfl hlive (fun a ha => ?_) (fun hp => ?_) fun hmem => ?_⟩
      · rw [hself] at ha
        exact (List.mem_singleton.1 ha).trans hattempt
      · rcases hp with hp | hp <;> cases hp
      · exact absurd hmem (by simp [hunsettled])
    · obtain ⟨k, hk⟩ := h.token u
      exact ⟨k, hk.advance_other hu (hothers u hu) (by simp)⟩
  · rw [attempts_advance]
    by_cases hu : r.tokenId = u
    · subst hu
      rw [hself, List.nodup_append]
      refine ⟨h.once _, List.nodup_singleton _, fun a ha b hb heq => ?_⟩
      rw [heq, List.mem_singleton.1 hb, hattempt] at ha
      exact hkt.fresh i r hr rfl (.inr hscoping) ha
    · rw [hothers u hu, List.append_nil]
      exact h.once u
  · refine List.pairwise_append.2
      ⟨h.final, List.pairwise_singleton .., fun e he e' he' t a hsettled hstarted => ?_⟩
    rw [List.mem_singleton.1 he'] at hstarted
    cases hstarted
    exact hunsettled (hsettled ▸ he)

/-- The worker sets out to complete the token, or to fail it. -/
theorem settle (h : Kept w) (hr : w.runs[i]? = some r) (hlive : r.phase ≠ .over) :
    Kept (w.settle i r) := by
  change Kept (w.advance i r .finishing [.settled r.tokenId])
  have hnil : ∀ u, [Event.settled r.tokenId].filterMap (Event.attemptOf u) = [] := fun u => rfl
  refine ⟨fun u => ?_, fun u => ?_, ?_⟩
  · obtain ⟨k, hk⟩ := h.token u
    by_cases hu : r.tokenId = u
    · refine ⟨k, hk.advance_self hr hu hlive (fun a ha => absurd (hnil u ▸ ha) List.not_mem_nil)
        (fun hp => ?_)
        fun _ => .inl rfl⟩
      rcases hp with hp | hp <;> cases hp
    · exact ⟨k, hk.advance_other hu (hnil u) (by simpa using Ne.symm hu)⟩
  · rw [attempts_advance, hnil, List.append_nil]
    exact h.once u
  · refine List.pairwise_append.2
      ⟨h.final, List.pairwise_singleton .., fun e _ e' he' t a _ hstarted => ?_⟩
    rw [List.mem_singleton.1 he'] at hstarted
    cases hstarted

/-- The attempt is over, and the worker forgets the token. -/
theorem finish (h : Kept w) (hr : w.runs[i]? = some r) (hlive : r.phase ≠ .over) :
    Kept { w.goOn i r .over with attemptByToken := w.attemptByToken.erase r.tokenId } := by
  have hover := h.goOn hr hlive (.inl rfl)
  refine ⟨fun u => ?_, hover.once, hover.final⟩
  obtain ⟨k, hk⟩ := hover.token u
  refine ⟨k, hk.keys, hk.bound, hk.run, hk.unique, fun a ha => ?_, fun a ha => ?_, hk.started,
    hk.fresh, hk.settled⟩
  · by_cases hu : r.tokenId = u
    · subst hu
      have hnone : (w.attemptByToken.erase r.tokenId).get? r.tokenId = none :=
          KeyedMap.get?_erase_self ..
      rw [hnone] at ha
      cases ha
    · refine (hk.map a ?_).imp_right fun hn => ⟨hn.eq, hn.positive, hn.idle, hn.unsettled, hn.bound⟩
      exact (KeyedMap.get?_erase_of_ne _ hu).symm.trans ha
  · exact (hk.timers a ha).imp_right fun hn => ⟨hn.eq, hn.positive, hn.idle, hn.unsettled, hn.bound⟩

/-- The attempt is over, and the next one is put off. -/
theorem putOff (h : Kept w) (hr : w.runs[i]? = some r) (hexecuting : r.phase = .executing)
    (hmax : ¬ w.maxAttempts < r.attempt + 1) :
    Kept { w.goOn i r .over with
      attemptByToken := w.attemptByToken.set (r.tokenId, r.attempt + 1)
      timers := w.timers ++ [(r.tokenId, r.attempt + 1)] } := by
  have hlive : r.phase ≠ .over := by rw [hexecuting]; decide
  have hover := h.goOn hr hlive (.inl rfl)
  refine ⟨fun u => ?_, hover.once, hover.final⟩
  obtain ⟨k, hk⟩ := h.token u
  have hsame : w.goOn i r .over = w.advance i r .over [] := by
      simp [TaskWorker.advance, TaskWorker.goOn]
  by_cases hu : r.tokenId = u
  · subst hu
    obtain ⟨hattempt, hpositive⟩ := hk.run i r hr rfl hlive
    have hself : Token (w.goOn i r .over) r.tokenId k := by
      rw [hsame]
      refine hk.advance_self hr rfl hlive (fun a ha => absurd ha List.not_mem_nil)
        (fun hp => ?_) fun _ => .inr rfl
      rcases hp with hp | hp <;> cases hp
    have hunsettled : .settled r.tokenId ∉ w.log := fun hmem => by
      have hphase := (hk.settled hmem).2 i r hr rfl
      rw [hexecuting] at hphase
      rcases hphase with hphase | hphase <;> cases hphase
    have hidle : (w.goOn i r .over).Idle r.tokenId := by
      intro j r' hr' ht'
      rcases getElem?_goOn hr' with ⟨-, rfl⟩ | ⟨hji, hold⟩
      · rfl
      · by_contra hlive'
        exact hji (hk.unique j i r' r hold hr ht' rfl hlive' hlive)
    refine ⟨k, hself.keys, hself.bound, hself.run, hself.unique, fun a ha => .inr ?_,
      fun a ha => ?_, hself.started,
      hself.fresh, hself.settled⟩
    · have hget : (w.attemptByToken.set (r.tokenId, r.attempt + 1)).get? r.tokenId =
        some (r.tokenId, r.attempt + 1) :=
        KeyedMap.get?_set_self _ (r.tokenId, r.attempt + 1)
      have heq := Option.some.inj (hget.symm.trans ha)
      cases heq
      refine ⟨by rw [hattempt], hpositive, hidle, hunsettled, ?_⟩
      change ((r.attempt + 1 : Nat) : Int) ≤ w.maxAttempts
      omega
    · rcases List.mem_append.1 ha with ha | ha
      · exact .inl (Token.le_of_live hr rfl hlive (hk.timers a ha))
      · cases List.mem_singleton.1 ha
        refine .inr ⟨by rw [hattempt], hpositive, hidle, hunsettled, ?_⟩
        change ((r.attempt + 1 : Nat) : Int) ≤ w.maxAttempts
        omega
  · have hother : Token (w.goOn i r .over) u k := by
      rw [hsame]
      exact hk.advance_other hu rfl List.not_mem_nil
    refine ⟨k, hother.frame rfl (fun _ => Iff.rfl) (fun _ _ hr _ => hr)
      (KeyedMap.get?_set_of_ne _ hu) (fun a ha => ?_)
      rfl id⟩
    rcases List.mem_append.1 ha with ha | ha
    · exact ha
    · cases List.mem_singleton.1 ha
      exact absurd rfl hu

/-- A timer fires. -/
theorem fire (h : Kept w) {n a : Nat} (hn : w.timers[n]? = some (t, a)) :
    Kept ({ w with timers := w.timers.eraseIdx n }.retry t a) := by
  have hmem : (t, a) ∈ w.timers := List.mem_of_getElem? hn
  have herased : ∀ u k, Token w u k → Token { w with timers := w.timers.eraseIdx n } u k :=
      fun u k hk =>
    hk.frame rfl (fun _ => Iff.rfl) (fun _ _ hr _ => hr) rfl
      (fun b hb => List.mem_of_mem_eraseIdx hb) rfl id
  have hkept : Kept { w with timers := w.timers.eraseIdx n } :=
    ⟨fun u => (h.token u).imp fun k hk => herased u k hk, h.once, h.final⟩
  unfold TaskWorker.retry
  split_ifs with hkey
  · exact hkept
  · refine ⟨fun u => ?_, h.once, h.final⟩
    obtain ⟨k, hk⟩ := h.token u
    by_cases htu : t = u
    · subst htu
      have hnext := hk.next_of_notMem (hk.timers a hmem) hkey
      obtain rfl : a = k + 1 := hnext.eq
      exact ⟨k + 1, (herased t k hk).run_next hnext.idle hnext.unsettled
        (Int.le_trans hnext.bound (Int.le_max_left ..))⟩
    · exact ⟨k, (herased u k hk).run_other htu _⟩

/-! ## Runs -/

theorem step (h : Kept w) {happening : Happening} (hstep : w.step happening = some w') :
    Kept w' := by
  unfold TaskWorker.step at hstep
  cases happening with
  | serviceTaskStarted t =>
    cases hstep
    exact h.dispatch t
  | loaded i loaded =>
    cases hr : w.runs[i]? with
    | none => simp [hr] at hstep
    | some r =>
      cases loaded <;> simp only [hr] at hstep <;> split_ifs at hstep with hphase <;> cases hstep
      · exact h.goOn hr (by rw [hphase]; decide) (.inl rfl)
      · exact h.settle hr (by rw [hphase]; decide)
      · exact h.goOn hr (by rw [hphase]; decide) (.inr ⟨rfl, hphase⟩)
  | scopeChain i =>
    cases hr : w.runs[i]? with
    | none => simp [hr] at hstep
    | some r =>
      simp only [hr] at hstep
      split_ifs at hstep with hphase
      cases hstep
      exact h.start hr hphase
  | returned i result =>
    cases hr : w.runs[i]? with
    | none => simp [hr] at hstep
    | some r =>
      simp only [hr] at hstep
      split_ifs at hstep with hphase
      cases hstep
      have hlive : r.phase ≠ .over := by rw [hphase]; decide
      unfold TaskWorker.onResult
      cases result with
      | completed => exact h.settle hr hlive
      | error => exact h.settle hr hlive
      | exception => exact h.settle hr hlive
      | retry =>
        dsimp only
        split_ifs with hmax
        · exact h.settle hr hlive
        · exact h.putOff hr hphase hmax
  | finished i =>
    cases hr : w.runs[i]? with
    | none => simp [hr] at hstep
    | some r =>
      simp only [hr] at hstep
      split_ifs at hstep with hphase
      cases hstep
      exact h.finish hr (by rw [hphase]; decide)
  | failed i =>
    cases hr : w.runs[i]? with
    | none => simp [hr] at hstep
    | some r =>
      simp only [hr] at hstep
      split_ifs at hstep with hphase
      cases hstep
      exact h.goOn hr (fun hover => hphase (.inr hover)) (.inl rfl)
  | fire n =>
    cases hn : w.timers[n]? with
    | none => simp [hn] at hstep
    | some entry =>
      simp only [hn] at hstep
      cases hstep
      exact h.fire hn

theorem atMostOnce (h : Kept w) (hmax : 1 ≤ w.maxAttempts) : AtMostOnce w := by
  refine ⟨h.once, fun t => ?_, fun i j r r' hr hr' hexecuting hexecuting' ht => ?_, h.final⟩
  · obtain ⟨k, hk⟩ := h.token t
    have hsub : w.attempts t ⊆ List.range' 1 k := fun a ha => by
      have := hk.started a ha
      rw [List.mem_range'_1]
      omega
    have hlength : (w.attempts t).length ≤ k := by
      have hle := (List.subperm_of_subset (h.once t) hsub).length_le
      rwa [List.length_range'] at hle
    have hbound := hk.bound
    omega
  · obtain ⟨k, hk⟩ := h.token r.tokenId
    exact hk.unique i j r r' hr hr' rfl ht.symm (by rw [hexecuting]; decide)
      (by rw [hexecuting']; decide)

end Kept

theorem kept_start (m : Int) : Kept { maxAttempts := m } := by
  refine ⟨fun t => ⟨0, fun a => ?_, Int.le_trans (by decide) (Int.le_max_right ..),
    fun i r hr => ?_, fun i j r r' hr => ?_,
    fun a ha => ?_, fun a ha => ?_, fun a ha => ?_, fun i r hr => ?_, fun hmem => ?_⟩, fun t =>
      List.nodup_nil, .nil⟩
  · constructor
    · exact fun hmem => absurd hmem List.not_mem_nil
    · omega
  · cases hr
  · cases hr
  · cases ha
  · cases ha
  · cases ha
  · cases hr
  · cases hmem

theorem maxAttempts_step {happening : Happening} (h : w.step happening = some w') :
    w'.maxAttempts = w.maxAttempts := by
  unfold TaskWorker.step at h
  split at h <;> (try split at h) <;> (try split_ifs at h) <;> cases h
  all_goals first
    | rfl
    | (unfold TaskWorker.dispatch; dsimp only; split_ifs <;> rfl)
    | (unfold TaskWorker.retry; split_ifs <;> rfl)
    | (unfold TaskWorker.onResult; split <;> (try split_ifs) <;> rfl)

/-- The first attempt begins in any case. -/
theorem reaches_started (m : Int) :
    Machine.Reaches TaskWorker.step (fun _ _ => True) { maxAttempts := m }
    { maxAttempts := m, attemptByToken := KeyedMap.set ∅ ("t", 1), inflightKeys := [("t", 1)]
      runs := [⟨"t", 1, .executing⟩], log := [.started "t" 1] } :=
  .tail (.tail (.tail .refl (i := .serviceTaskStarted "t") trivial rfl)
    (i := .loaded 0 .ready) trivial rfl)
    (i := .scopeChain 0) trivial rfl

/-- A worker keeps to it in every run if and only if it may make an attempt at all. -/
theorem worker_at_most_once (m : Int) :
    (∀ w, Machine.Reaches TaskWorker.step (fun _ _ => True) { maxAttempts := m } w → AtMostOnce w) ↔
    1 ≤ m := by
  constructor
  · intro h
    exact (h _ (reaches_started m)).bounded "t"
  · intro hm w hw
    have hkept : Kept w ∧ w.maxAttempts = m := hw.keeps (I := fun w => Kept w ∧ w.maxAttempts = m)
      ⟨kept_start m, rfl⟩ fun h _ hstep => ⟨h.1.step hstep, (maxAttempts_step hstep).trans h.2⟩
    exact hkept.1.atMostOnce (hkept.2 ▸ hm)

/-- `maxAttempts` is zero, and the handler is started. -/
theorem not_worker_at_most_once : ¬ ∀ (m : Int) (w : TaskWorker),
    Machine.Reaches TaskWorker.step (fun _ _ => True) { maxAttempts := m } w → AtMostOnce w :=
  fun h => absurd ((h 0 _ (reaches_started 0)).bounded "t") (by decide)

end NexusWorkflow.TaskWorkers
