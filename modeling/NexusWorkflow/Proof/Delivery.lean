import NexusWorkflow.Model.EventHub

/-!
# Whom the events reach

A call of `publishMany` delivers event after event, and handler after handler of the array that
`handlers` is when the event is published.  That array may grow meanwhile, at its end, and it is
never changed otherwise.  So whoever is subscribed when an event is published receives it once, as
long as no handler before it throws.
-/

namespace NexusWorkflow.EventHub

/-! ## The arrays of the hub -/

namespace Hub

variable {hub : Hub} {subscription : Subscription} {a : Nat}

/-- The last array is `handlers`. -/
theorem array_length (hub : Hub) : hub.array hub.replaced.length = hub.handlers := by simp [array]

theorem array_subscribeAll_of_lt (h : a < hub.replaced.length) :
    (hub.subscribeAll subscription).array a = hub.array a := by
  simp [array, subscribeAll, List.getElem?_append, h]

theorem array_unsubscribe_of_le (h : a ≤ hub.replaced.length) :
    (hub.unsubscribe subscription).array a = hub.array a := by
  have hlt : a < (hub.replaced ++ [hub.handlers]).length := by
    rw [List.length_append, List.length_singleton]
    omega
  unfold array unsubscribe
  dsimp only
  rw [List.getElem?_append_left hlt]

/-- Each array goes on as it was, with more handlers at its end. -/
structure Grows (hub hub' : Hub) : Prop where
  length : hub.replaced.length ≤ hub'.replaced.length
  array : ∀ a, a ≤ hub.replaced.length → hub.array a <+: hub'.array a

theorem grows_subscribeAll (subscription : Subscription) :
    hub.Grows (hub.subscribeAll subscription) := by
  refine ⟨Nat.le_refl _, fun a ha => ?_⟩
  by_cases hlt : a < hub.replaced.length
  · simp only [array_subscribeAll_of_lt hlt, List.prefix_refl]
  · obtain rfl : a = hub.replaced.length := by omega
    rw [array_length]
    exact (array_length (hub.subscribeAll subscription)).symm ▸ List.prefix_append _ _

theorem grows_unsubscribe (subscription : Subscription) :
    hub.Grows (hub.unsubscribe subscription) := by
  refine ⟨by simp [unsubscribe], fun a ha => ?_⟩
  simp only [array_unsubscribe_of_le ha, List.prefix_refl]

end Hub

/-! ## One call of `publishMany` -/

theorem not_mem_take {l : List Subscription} (hnodup : l.Nodup) {i : Nat} {k : Subscription}
    (hk : l[i]? = some k) : k ∉ l.take i := by
  intro hmem
  obtain ⟨j, hj, hjk⟩ := List.mem_iff_getElem.1 hmem
  rw [List.length_take] at hj
  rw [List.getElem_take] at hjk
  obtain ⟨hi, hik⟩ := List.getElem?_eq_some_iff.1 hk
  have hij : j = i := (List.Nodup.getElem_inj_iff hnodup).1 (hjk.trans hik.symm)
  omega

namespace Publication

variable {hub hub' : Hub} {p : Publication} {event : Event} {a i : Nat}

/-- The `n`-th event has reached all that it concerns. -/
def Complete (p : Publication) (n : Nat) : Prop :=
  ∀ event audience, p.events[n]? = some event → p.audiences[n]? = some audience →
    ∀ k ∈ audience, k.scope.concerns p.tenantId event = true → (k, n) ∈ p.received

/-- What has been received so far. -/
structure Sound (p : Publication) : Prop where
  own : ∀ d ∈ p.received, ∃ event, p.events[d.2]? = some event ∧
    d.1.scope.concerns p.tenantId event = true
  once : p.received.Pairwise fun d d' => d.1 = d'.1 → d.2 < d'.2
  complete : ∀ n < p.next, p.Complete n

/-- The loop over the handlers has come to the `i`-th one. -/
structure Visiting (hub : Hub) (p : Publication) (event : Event) (a i : Nat) : Prop where
  sound : p.Sound
  array : a ≤ hub.replaced.length
  current : p.events[p.next]? = some event
  audiences : p.audiences.length = p.next + 1
  audience : ∀ audience, p.audiences[p.next]? = some audience → audience <+: hub.array a
  reached : i ≤ (hub.array a).length
  bound : ∀ d ∈ p.received, d.2 ≤ p.next
  visited : ∀ k, (k, p.next) ∈ p.received ↔
    k ∈ (hub.array a).take i ∧ k.scope.concerns p.tenantId event = true

structure Between (p : Publication) : Prop where
  sound : p.Sound
  audiences : p.audiences.length = p.next
  next : p.next ≤ p.events.length
  bound : ∀ d ∈ p.received, d.2 < p.next

structure Ended (p : Publication) : Prop where
  sound : p.Sound
  audiences : p.audiences.length = p.events.length
  complete : ∀ n, p.Complete n

def Kept (hub : Hub) (p : Publication) : Prop :=
  match p.stage with
  | .between => p.Between
  | .delivering a i => ∃ event, p.Visiting hub event a (i + 1)
  | .ended => p.Ended

theorem Visiting.grows (h : p.Visiting hub event a i) (hgrows : hub.Grows hub') :
    p.Visiting hub' event a i where
  sound := h.sound
  array := Nat.le_trans h.array hgrows.length
  current := h.current
  audiences := h.audiences
  audience audience haudience := (h.audience audience haudience).trans (hgrows.array a h.array)
  reached := Nat.le_trans h.reached (hgrows.array a h.array).length_le
  bound := h.bound
  visited k := by
    have htake : (hub'.array a).take i = (hub.array a).take i := by
      obtain ⟨rest, hrest⟩ := hgrows.array a h.array
      rw [← hrest, List.take_append_of_le_length h.reached]
    rw [htake]
    exact h.visited k

theorem Kept.grows (h : p.Kept hub) (hgrows : hub.Grows hub') : p.Kept hub' := by
  unfold Kept at h ⊢
  cases hstage : p.stage with
  | between => simpa [hstage] using h
  | ended => simpa [hstage] using h
  | delivering a i =>
    rw [hstage] at h
    obtain ⟨event, h⟩ := h
    exact ⟨event, h.grows hgrows⟩

/-- After the last handler of the array the event is complete. -/
theorem Visiting.between (h : p.Visiting hub event a i) (hend : (hub.array a)[i]? = none) :
    Between { p with stage := .between, next := p.next + 1 } := by
  have hlen : p.next < p.events.length := (List.getElem?_eq_some_iff.1 h.current).1
  have hall : (hub.array a).take i = hub.array a :=
      List.take_of_length_le (List.getElem?_eq_none_iff.1 hend)
  refine ⟨⟨h.sound.own, h.sound.once, fun n hn => ?_⟩, h.audiences, hlen, fun d hd => ?_⟩
  · by_cases hlast : n < p.next
    · exact h.sound.complete n hlast
    · obtain rfl : n = p.next := by
        have hn' : n < p.next + 1 := hn
        omega
      intro e audience he haudience k hk hconcerns
      have he' : e = event := Option.some.inj (he.symm.trans h.current)
      refine (h.visited k).2 ⟨?_, he' ▸ hconcerns⟩
      rw [hall]
      exact (h.audience audience haudience).subset hk
  · exact Nat.lt_succ_of_le (h.bound d hd)

/-- The next handler is called, if the event concerns it. -/
theorem Visiting.next (h : p.Visiting hub event a i) (hnodup : (hub.array a).Nodup)
    {k : Subscription} (hk : (hub.array a)[i]? = some k) : Visiting hub { p with
      stage := .delivering a i
      received := if k.scope.concerns p.tenantId event then p.received ++ [(k, p.next)]
        else p.received }
      event a (i + 1) := by
  have hlt : i < (hub.array a).length := (List.getElem?_eq_some_iff.1 hk).1
  have hnew : k ∉ (hub.array a).take i := not_mem_take hnodup hk
  have htake : (hub.array a).take (i + 1) = (hub.array a).take i ++ [k] := by
    rw [List.take_add_one, hk]
    rfl
  by_cases hconcerns : k.scope.concerns p.tenantId event = true
  · rw [if_pos hconcerns]
    refine ⟨⟨?_, ?_, ?_⟩, h.array, h.current, h.audiences, h.audience, hlt, ?_, ?_⟩
    · intro d hd
      rcases List.mem_append.1 hd with hd | hd
      · exact h.sound.own d hd
      · obtain rfl := List.mem_singleton.1 hd
        exact ⟨event, h.current, hconcerns⟩
    · refine List.pairwise_append.2 ⟨h.sound.once, List.pairwise_singleton _ _, ?_⟩
      intro d hd d' hd' hsame
      obtain rfl := List.mem_singleton.1 hd'
      refine Nat.lt_of_le_of_ne (h.bound d hd) fun heq => ?_
      have hmem : (k, p.next) ∈ p.received := by
        obtain ⟨k', n⟩ := d
        cases hsame
        cases heq
        exact hd
      exact hnew ((h.visited k).1 hmem).1
    · intro n hn e audience he haudience k' hk' hk'concerns
      exact List.mem_append_left _
        (h.sound.complete n hn e audience he haudience k' hk' hk'concerns)
    · intro d hd
      rcases List.mem_append.1 hd with hd | hd
      · exact h.bound d hd
      · obtain rfl := List.mem_singleton.1 hd
        exact Nat.le_refl _
    · intro k'
      rw [htake]
      simp only [List.mem_append, List.mem_singleton, h.visited k', Prod.mk.injEq, and_true]
      constructor
      · rintro (⟨hmem, hc⟩ | rfl)
        · exact ⟨Or.inl hmem, hc⟩
        · exact ⟨Or.inr rfl, hconcerns⟩
      · rintro ⟨hmem | rfl, hc⟩
        · exact Or.inl ⟨hmem, hc⟩
        · exact Or.inr rfl
  · rw [if_neg hconcerns]
    refine ⟨⟨h.sound.own, h.sound.once, h.sound.complete⟩, h.array, h.current, h.audiences,
      h.audience, hlt, h.bound,
      fun k' => ?_⟩
    rw [htake]
    simp only [List.mem_append, List.mem_singleton, h.visited k']
    constructor
    · rintro ⟨hmem, hc⟩
      exact ⟨Or.inl hmem, hc⟩
    · rintro ⟨hmem | rfl, hc⟩
      · exact ⟨hmem, hc⟩
      · exact absurd hc hconcerns

/-- An event is published. -/
theorem Between.publish (h : p.Between) (hevent : p.events[p.next]? = some event) :
    Visiting hub { p with audiences := p.audiences ++ [hub.handlers] } event hub.replaced.length
      0 := by
  have hlast : (p.audiences ++ [hub.handlers])[p.next]? = some hub.handlers := by
    rw [← h.audiences]
    exact List.getElem?_concat_length
  refine ⟨⟨h.sound.own, h.sound.once, fun n hn => ?_⟩, Nat.le_refl _, hevent, ?_, ?_, Nat.zero_le _,
    ?_, ?_⟩
  · intro e audience he haudience
    have hn' : n < p.audiences.length := h.audiences.symm ▸ hn
    rw [List.getElem?_append_left hn'] at haudience
    exact h.sound.complete n hn e audience he haudience
  · rw [List.length_append, h.audiences]
    rfl
  · intro audience haudience
    obtain rfl : hub.handlers = audience := Option.some.inj (hlast.symm.trans haudience)
    simp only [hub.array_length, List.prefix_refl]
  · intro d hd
    exact Nat.le_of_lt (h.bound d hd)
  · intro k
    refine ⟨fun hmem => absurd (h.bound _ hmem) (Nat.lt_irrefl _), fun ⟨hmem, _⟩ => ?_⟩
    rw [List.take_zero] at hmem
    cases hmem

theorem Between.end (h : p.Between) (hend : p.events[p.next]? = none) :
    Ended { p with stage := .ended } := by
  have hle : p.events.length ≤ p.next := List.getElem?_eq_none_iff.1 hend
  refine ⟨⟨h.sound.own, h.sound.once, h.sound.complete⟩, ?_, fun n e audience he haudience => ?_⟩
  · have hnext := h.next
    have haudiences := h.audiences
    dsimp only
    omega
  · have hn : n < p.events.length := (List.getElem?_eq_some_iff.1 he).1
    exact h.sound.complete n (by omega) e audience he haudience

/-- A handler throws, and the rest of the call does not concern anyone. -/
theorem Visiting.throws (h : p.Visiting hub event a (i + 1)) {audience : List Subscription}
    (hrest : ∀ audience, p.audiences[p.next]? = some audience → ∀ k ∈ audience.drop (i + 1),
      k.scope.concerns p.tenantId event = false)
    (hlater : ∀ later ∈ p.events.drop (p.next + 1), ∀ k ∈ audience,
    k.scope.concerns p.tenantId later = false) :
    Ended { p with
      stage := .ended
      audiences := p.audiences ++ List.replicate
        (p.events.length - p.audiences.length) audience } := by
  have hlen : p.next < p.events.length := (List.getElem?_eq_some_iff.1 h.current).1
  have haudiences := h.audiences
  refine ⟨⟨h.sound.own, h.sound.once, fun n hn => ?_⟩, ?_, fun n e known he hknown k hk hconcerns =>
    ?_⟩
  · intro e known he hknown
    have hn' : n < p.audiences.length := by
      have hn'' : n < p.next := hn
      omega
    rw [List.getElem?_append_left hn'] at hknown
    exact h.sound.complete n hn e known he hknown
  · dsimp only
    rw [List.length_append, List.length_replicate]
    omega
  · by_cases hn : n < p.audiences.length
    · rw [List.getElem?_append_left hn] at hknown
      by_cases hbefore : n < p.next
      · exact h.sound.complete n hbefore e known he hknown k hk hconcerns
      · obtain rfl : n = p.next := by omega
        have he' : e = event := Option.some.inj (he.symm.trans h.current)
        subst he'
        -- those before it in the array have received the event, and those after it are not
        -- concerned
        refine (h.visited k).2 ⟨?_, hconcerns⟩
        obtain ⟨more, hmore⟩ := h.audience known hknown
        rw [← List.take_append_drop (i + 1) known, List.mem_append] at hk
        rcases hk with hk | hk
        · rw [← hmore, List.take_append, List.mem_append]
          exact Or.inl hk
        · rw [hrest known hknown k hk] at hconcerns
          cases hconcerns
    · have hin : k ∈ audience := by
        rw [List.getElem?_append_right (by omega), List.getElem?_replicate] at hknown
        split_ifs at hknown
        cases hknown
        exact hk
      have hmem : e ∈ p.events.drop (p.next + 1) := by
        have hdrop : (p.events.drop (p.next + 1))[n - (p.next + 1)]? = some e := by
          rw [List.getElem?_drop, Nat.add_sub_cancel' (by omega)]
          exact he
        exact List.mem_of_getElem? hdrop
      rw [hlater e hmem k hin] at hconcerns
      cases hconcerns

end Publication

/-! ## What the hub promises -/

/-- In one call each handler gets the events that concern it, each of them once and one after the
other. -/
structure Delivers (s : Bus) : Prop where
  own : ∀ p ∈ s.calls, ∀ d ∈ p.received, ∃ event, p.events[d.2]? = some event ∧
    d.1.scope.concerns p.tenantId event = true
  once : ∀ p ∈ s.calls, p.received.Pairwise fun d d' => d.1 = d'.1 → d.2 < d'.2
  every : ∀ p ∈ s.calls, ∀ n, n < p.next ∨ p.stage = .ended → p.Complete n
  /-- No event of a call that is over is left out in `every`. -/
  counted : ∀ p ∈ s.calls, p.stage = .ended → p.audiences.length = p.events.length
  logged : s.log.map (fun row => (row.tenantId, row.event)) = s.published
  listed : ∀ tenantId instanceId rows, PostgresEventLog.Lists s.log tenantId instanceId rows →
    rows = (InMemoryEventLog.getForInstance s.log tenantId instanceId).filter (·.state ≠ .underWay)

/-- No one whom the rest of the call concerns misses it: neither those that were subscribed when the
event was published, nor those that have been subscribed all the time. -/
def Publication.Spares (p : Publication) (live : List Subscription) : Prop :=
  match p.stage, p.events[p.next]? with
  | .delivering _ i, some event =>
    (∀ k ∈ (p.audiences[p.next]?.getD []).drop (i + 1), k.scope.concerns p.tenantId event = false) ∧
      ∀ later ∈ p.events.drop (p.next + 1), ∀ k ∈ p.subscribed.filter (· ∈ live),
        k.scope.concerns p.tenantId later = false
  | _, _ => True

instance (p : Publication) (live : List Subscription) : Decidable (p.Spares live) := by
  unfold Publication.Spares
  split <;> infer_instance

/-- The events of an instance that are in the log are earlier than this one. -/
def Publication.Timely (s : Bus) (p : Publication) : Prop :=
  match p.stage, p.events[p.next]? with
  | .between, some event => ∀ row ∈ s.log, row.tenantId = p.tenantId → event.instanceId ≠ none →
    row.event.instanceId = event.instanceId → row.occurredAt < s.now
  | _, _ => True

instance (s : Bus) (p : Publication) : Decidable (p.Timely s) := by
  unfold Publication.Timely
  split <;> infer_instance

def Orderly (s : Bus) : Happening → Prop
  | .unsubscribe id => ∀ k ∈ s.subscriptions[id]?, ∀ other ∈ s.live, other ≠ k →
      other.handler ≠ k.handler
  | .proceed c => ∀ p ∈ s.calls[c]?, p.Timely s
  | .throws c => ∀ p ∈ s.calls[c]?, p.Spares s.live
  | .insertFails j => ∀ row ∈ s.log[j]?, row.event.instanceId = none
  | .subscribe _ _ | .publishMany _ _ | .clock _ | .inserted _ => True

instance decidableOrderly (s : Bus) : (h : Happening) → Decidable (Orderly s h)
  | .unsubscribe id => inferInstanceAs (Decidable (∀ k ∈ s.subscriptions[id]?, ∀ other ∈ s.live, _))
  | .proceed c => inferInstanceAs (Decidable (∀ p ∈ s.calls[c]?, p.Timely s))
  | .throws c => inferInstanceAs (Decidable (∀ p ∈ s.calls[c]?, p.Spares s.live))
  | .insertFails j => inferInstanceAs (Decidable (∀ row ∈ s.log[j]?, row.event.instanceId = none))
  | .subscribe _ _ | .publishMany _ _ | .clock _ | .inserted _ => isTrue trivial

/-! ## What a step keeps -/

/-- The handlers of an array are different subscriptions, and the first one is that of the logs. -/
structure Arrayed (subscriptions l : List Subscription) : Prop where
  nodup : l.Nodup
  known : ∀ k ∈ l, k ∈ subscriptions
  log : l.head? = some logSubscription

structure Bus.Arranged (s : Bus) : Prop where
  live : s.live = s.hub.handlers
  ids : ∀ (i : Nat) (k : Subscription), s.subscriptions[i]? = some k → k.id = i
  arrays : ∀ a, a ≤ s.hub.replaced.length → Arrayed s.subscriptions (s.hub.array a)

structure Logged (log : List LogRow) (published : List (String × Event)) : Prop where
  published : log.map (fun row => (row.tenantId, row.event)) = published
  times : ∀ tenantId instanceId,
    (log.filter (·.about tenantId instanceId)).Pairwise fun row later =>
    row.occurredAt < later.occurredAt
  kept : ∀ row ∈ log, row.event.instanceId ≠ none → row.state ≠ .failed

structure Bus.Kept (s : Bus) : Prop where
  arranged : s.Arranged
  calls : ∀ p ∈ s.calls, p.Kept s.hub
  logged : Logged s.log s.published

namespace Bus

variable {s s' : Bus} {p : Publication} {event : Event} {c a i : Nat}

theorem Arranged.handlers (h : s.Arranged) : Arrayed s.subscriptions s.hub.handlers :=
  s.hub.array_length ▸ h.arrays s.hub.replaced.length (Nat.le_refl _)

/-- A call goes on. -/
theorem calls_setCall (h : ∀ p ∈ s.calls, p.Kept s.hub) (hp : p.Kept s.hub) :
    ∀ p' ∈ (s.setCall c p).calls, p'.Kept s.hub := by
  intro p' hp'
  rcases List.mem_or_eq_of_mem_set hp' with hp' | rfl
  · exact h p' hp'
  · exact hp

/-- The loop over the handlers comes to the next one. -/
theorem visit_kept (c : Nat) (h : s.Arranged) (hcalls : ∀ p ∈ s.calls, p.Kept s.hub)
    (hp : p.Visiting s.hub event a i) : (s.visit c p event a i).Arranged ∧
    ∀ p' ∈ (s.visit c p event a i).calls, p'.Kept (s.visit c p event a i).hub := by
  unfold visit
  cases hk : (s.hub.array a)[i]? with
  | none => exact ⟨⟨h.live, h.ids, h.arrays⟩, calls_setCall hcalls (hp.between hk)⟩
  | some k =>
    have hnext := hp.next (h.arrays a hp.array).nodup hk
    by_cases hlog : k = logSubscription
    · simp only [if_pos hlog]
      exact ⟨⟨h.live, h.ids, h.arrays⟩, calls_setCall hcalls ⟨event, hnext⟩⟩
    · simp only [if_neg hlog]
      exact ⟨⟨h.live, h.ids, h.arrays⟩, calls_setCall hcalls ⟨event, hnext⟩⟩

/-- The first handler appends the event to the log. -/
theorem log_visit_zero (c : Nat) (p : Publication) (event : Event)
    (h : (s.hub.array a).head? = some logSubscription) :
    (s.visit c p event a 0).log = (s.append p.tenantId event).log ∧
      (s.visit c p event a 0).published = s.published := by
  unfold visit
  rw [← List.head?_eq_getElem?, h]
  simp [setCall, append]

/-- The other ones do not. -/
theorem log_visit_succ (c : Nat) (p : Publication) (event : Event) (i : Nat)
    (h : Arrayed s.subscriptions (s.hub.array a)) : (s.visit c p event a (i + 1)).log = s.log ∧
    (s.visit c p event a (i + 1)).published = s.published := by
  unfold visit
  cases hk : (s.hub.array a)[i + 1]? with
  | none => exact ⟨rfl, rfl⟩
  | some k =>
    have hother : k ≠ logSubscription := by
      intro hlog
      have hfirst : (s.hub.array a)[0]? = some k := by rw [← List.head?_eq_getElem?, h.log, hlog]
      have htake : k ∈ (s.hub.array a).take (i + 1) :=
        List.mem_of_getElem? ((List.getElem?_take_of_lt (Nat.succ_pos i)).trans hfirst)
      exact not_mem_take h.nodup hk htake
    simp only [if_neg hother]
    exact ⟨rfl, rfl⟩

end Bus

/-- An event is appended after those of its instance. -/
theorem Logged.append {log : List LogRow} {published : List (String × Event)}
    (h : Logged log published) {row : LogRow} (hstate : row.state = .underWay)
    (htime : ∀ earlier ∈ log, earlier.tenantId = row.tenantId → row.event.instanceId ≠ none →
      earlier.event.instanceId = row.event.instanceId → earlier.occurredAt < row.occurredAt) :
    Logged (log ++ [row]) (published ++ [(row.tenantId, row.event)]) := by
  refine ⟨by simp [h.published], fun tenantId instanceId => ?_, fun r hr hinstance => ?_⟩
  · rw [List.filter_append, List.pairwise_append]
    refine ⟨h.times tenantId instanceId, (List.pairwise_singleton _ row).filter _, ?_⟩
    intro earlier hearlier r hr
    simp only [List.mem_filter, List.mem_singleton, LogRow.about, decide_eq_true_eq] at hearlier hr
    obtain ⟨rfl, htenant, hinstance⟩ := hr
    refine htime earlier hearlier.1 (hearlier.2.1.trans htenant.symm) ?_
      (hearlier.2.2.trans hinstance.symm)
    rw [hinstance]
    exact nofun
  · rcases List.mem_append.1 hr with hr | hr
    · exact h.kept r hr hinstance
    · obtain rfl := List.mem_singleton.1 hr
      rw [hstate]
      exact nofun

theorem Logged.setRow {log : List LogRow} {published : List (String × Event)}
    (h : Logged log published) {j : Nat} {row : LogRow} (hrow : log[j]? = some row)
    {state : InsertState} (hstate : row.event.instanceId ≠ none → state ≠ .failed) :
    Logged (log.set j { row with state }) published := by
  obtain ⟨hj, hget⟩ := List.getElem?_eq_some_iff.1 hrow
  have hsame : ∀ {β : Type} (f : LogRow → β), f { row with state } = f row →
      (log.set j { row with state }).map f = log.map f := by
    intro β f hf
    have hj' : j < (log.map f).length := by rwa [List.length_map]
    have hget' : (log.map f)[j] = f row := by rw [List.getElem_map, hget]
    rw [List.map_set, hf, ← hget', List.set_getElem_self]
  refine ⟨(hsame (fun row => (row.tenantId, row.event)) rfl).trans h.published,
    fun tenantId instanceId => ?_,
    fun r hr hinstance => ?_⟩
  · have htimes := h.times tenantId instanceId
    -- only the event and its time matter
    have hmap := hsame (fun row => (row.about tenantId instanceId, row.occurredAt)) rfl
    have hfilter : ∀ l : List LogRow,
        ((l.filter (·.about tenantId instanceId)).map (·.occurredAt)) =
        ((l.map fun row => (row.about tenantId instanceId, row.occurredAt)).filter (·.1)).map
          (·.2) := by
      intro l
      rw [List.filter_map, List.map_map]
      rfl
    have hpairwise : ∀ l : List LogRow, (l.filter (·.about tenantId instanceId)).Pairwise
        (fun row later => row.occurredAt < later.occurredAt) ↔
        (((l.map fun row => (row.about tenantId instanceId, row.occurredAt)).filter (·.1)).map
          (·.2)).Pairwise
          (· < ·) := by
      intro l
      rw [← hfilter, List.pairwise_map]
    rw [hpairwise, hmap, ← hpairwise]
    exact htimes
  · rcases List.mem_or_eq_of_mem_set hr with hr | rfl
    · exact h.kept r hr hinstance
    · exact hstate hinstance

/-- The rows are found in the order in which their events were published. -/
theorem Logged.listed {log : List LogRow} {published : List (String × Event)}
    (h : Logged log published) {tenantId instanceId : String} {rows : List LogRow}
    (hrows : PostgresEventLog.Lists log tenantId instanceId rows) :
    rows = (InMemoryEventLog.getForInstance log tenantId instanceId).filter
      (·.state ≠ .underWay) := by
  have hstates : log.filter (fun row => row.about tenantId instanceId ∧ row.state = .inserted) =
      (InMemoryEventLog.getForInstance log tenantId instanceId).filter (·.state ≠ .underWay) := by
    rw [InMemoryEventLog.getForInstance, List.filter_filter]
    refine List.filter_congr fun row hrow => ?_
    by_cases habout : row.about tenantId instanceId = true
    · have hinstance : row.event.instanceId ≠ none := by
        simp only [LogRow.about, decide_eq_true_eq] at habout
        rw [habout.2]
        exact nofun
      have hkept := h.kept row hrow hinstance
      cases hstate : row.state with
      | underWay => simp
      | inserted => simp [habout]
      | failed => exact absurd hstate hkept
    · simp [habout]
  have hperm := hrows.same
  rw [hstates] at hperm
  have htimes : ((InMemoryEventLog.getForInstance log tenantId instanceId).filter
      (·.state ≠ .underWay)).Pairwise
      fun row later => row.occurredAt < later.occurredAt := (h.times tenantId instanceId).filter _
  have hinj : ∀ r ∈ rows, ∀ r' ∈ rows, r.occurredAt = r'.occurredAt → r = r' := by
    have hnodup := List.pairwise_map.2 (htimes.imp fun hlt => Int.ne_of_lt hlt)
    intro r hr r' hr' heq
    exact List.inj_on_of_nodup_map hnodup (hperm.subset hr) (hperm.subset hr') heq
  refine hperm.eq_of_pairwise ?_ hrows.sorted (htimes.imp fun hlt => Int.le_of_lt hlt)
  intro r r' hr hr' hle hle'
  exact hinj r hr r' (hperm.symm.subset hr') (Int.le_antisymm hle hle')

namespace Bus

variable {s s' : Bus}

theorem Kept.subscribe (h : s.Kept) (scope : Scope) (f : Nat) : (s.subscribe scope f).Kept := by
  have harranged := h.arranged
  refine ⟨⟨?_, ?_, ?_⟩, fun p hp => (h.calls p hp).grows (Hub.grows_subscribeAll _), h.logged⟩
  · exact congrArg (· ++ [_]) harranged.live
  · intro i k hk
    unfold Bus.subscribe at hk
    by_cases hi : i < s.subscriptions.length
    · rw [List.getElem?_append_left hi] at hk
      exact harranged.ids i k hk
    · rw [List.getElem?_append_right (by omega)] at hk
      obtain ⟨hzero, hget⟩ := List.getElem?_eq_some_iff.1 hk
      rw [List.length_singleton] at hzero
      rw [List.getElem_singleton] at hget
      subst hget
      dsimp only
      omega
  · intro a ha
    unfold Bus.subscribe
    dsimp only
    by_cases hlt : a < s.hub.replaced.length
    · rw [Hub.array_subscribeAll_of_lt hlt]
      have harray := harranged.arrays a (Nat.le_of_lt hlt)
      exact ⟨harray.nodup, fun k hk => List.mem_append_left _ (harray.known k hk), harray.log⟩
    · obtain rfl : a = s.hub.replaced.length := Nat.le_antisymm ha (Nat.le_of_not_lt hlt)
      have harray := harranged.handlers
      refine (Hub.array_length (s.hub.subscribeAll _)).symm ▸ ⟨?_, ?_, ?_⟩
      · refine List.nodup_append.2 ⟨harray.nodup, List.nodup_singleton _, ?_⟩
        rintro k hk k' hk' rfl
        -- the known subscriptions have other numbers
        obtain ⟨i, hi⟩ := List.mem_iff_getElem?.1 (harray.known k hk)
        have hid := harranged.ids i k hi
        have hlen := (List.getElem?_eq_some_iff.1 hi).1
        obtain rfl := List.mem_singleton.1 hk'
        dsimp only at hid
        omega
      · intro k hk
        rcases List.mem_append.1 hk with hk | hk
        · exact List.mem_append_left _ (harray.known k hk)
        · exact List.mem_append_right _ hk
      · show (s.hub.handlers ++ [_]).head? = some logSubscription
        rw [List.head?_append, harray.log]
        rfl

theorem Kept.unsubscribe (h : s.Kept) {k : Subscription} (hlog : k ≠ logSubscription)
    (hother : ∀ other ∈ s.live, other ≠ k → other.handler ≠ k.handler) :
    (s.unsubscribe k).Kept := by
  have harranged := h.arranged
  have hfilter : s.hub.handlers.filter (fun other => other.handler ≠ k.handler) =
      s.hub.handlers.filter (fun other => other ≠ k) := by
    refine List.filter_congr fun other hmem => ?_
    by_cases heq : other = k
    · simp [heq]
    · simp [heq, hother other (harranged.live ▸ hmem) heq]
  refine ⟨⟨?_, harranged.ids, ?_⟩, fun p hp => (h.calls p hp).grows (Hub.grows_unsubscribe k),
    h.logged⟩
  · show s.live.filter (· ≠ k) = s.hub.handlers.filter _
    rw [hfilter, harranged.live]
  · intro a ha
    unfold Bus.unsubscribe at ha ⊢
    dsimp only at ha ⊢
    by_cases hle : a ≤ s.hub.replaced.length
    · rw [Hub.array_unsubscribe_of_le hle]
      exact harranged.arrays a hle
    · have hlast : a = (s.hub.unsubscribe k).replaced.length := by
        have hlen : (s.hub.unsubscribe k).replaced.length = s.hub.replaced.length + 1 := by
            simp [Hub.unsubscribe]
        omega
      rw [hlast, Hub.array_length]
      have harray := harranged.handlers
      refine ⟨harray.nodup.filter _, fun k' hk' => harray.known k' (List.mem_filter.1 hk').1, ?_⟩
      show (s.hub.handlers.filter _).head? = _
      rw [hfilter]
      cases hhandlers : s.hub.handlers with
      | nil =>
        have hhead := harray.log
        rw [hhandlers] at hhead
        cases hhead
      | cons first rest =>
        have hhead := harray.log
        rw [hhandlers, List.head?_cons, Option.some.injEq] at hhead
        rw [List.filter_cons_of_pos (by simpa [hhead] using Ne.symm hlog), List.head?_cons, hhead]

theorem Kept.publishMany (h : s.Kept) (tenantId : String) (events : List Event) :
    Kept { s with calls := s.calls ++ [{ tenantId, events, subscribed := s.live }] } := by
  refine ⟨⟨h.arranged.live, h.arranged.ids, h.arranged.arrays⟩, fun p hp => ?_, h.logged⟩
  rcases List.mem_append.1 hp with hp | hp
  · exact h.calls p hp
  · obtain rfl := List.mem_singleton.1 hp
    have hnew : Publication.Between { tenantId, events, subscribed := s.live } :=
      ⟨⟨nofun, List.Pairwise.nil, fun n hn => absurd hn (Nat.not_lt_zero n)⟩, rfl, Nat.zero_le _,
        nofun⟩
    exact hnew

theorem Kept.publish (h : s.Kept) {c : Nat} {p : Publication} {event : Event} (hp : p.Between)
    (hevent : p.events[p.next]? = some event)
    (htime : ∀ row ∈ s.log, row.tenantId = p.tenantId → event.instanceId ≠ none →
      row.event.instanceId = event.instanceId → row.occurredAt < s.now) :
        (s.publish c p event).Kept := by
  have hvisiting : Publication.Visiting s.hub { p with audiences := p.audiences ++ [s.live] } event
      s.hub.replaced.length 0 := h.arranged.live ▸ hp.publish hevent
  have hhead : (s.hub.array s.hub.replaced.length).head? = some logSubscription :=
    s.hub.array_length ▸ h.arranged.handlers.log
  have harranged : Arranged { s with published := s.published ++ [(p.tenantId, event)] } :=
    ⟨h.arranged.live, h.arranged.ids, h.arranged.arrays⟩
  obtain ⟨harranged', hcalls⟩ := visit_kept c harranged h.calls hvisiting
  refine ⟨harranged', hcalls, ?_⟩
  unfold Bus.publish
  obtain ⟨hlog, hpublished⟩ :=
    log_visit_zero (s := { s with published := s.published ++ [(p.tenantId, event)] }) c
    { p with audiences := p.audiences ++ [s.live] } event hhead
  rw [hlog, hpublished]
  exact h.logged.append rfl htime

theorem Kept.proceed (h : s.Kept) {c : Nat} (htimely : Orderly s (.proceed c))
    (hstep : s.proceed c = some s') : s'.Kept := by
  unfold Bus.proceed at hstep
  cases hc : s.calls[c]? with
  | none => simp [hc] at hstep
  | some p =>
    have hp := h.calls p (List.mem_of_getElem? hc)
    have htime := htimely p hc
    unfold Publication.Kept at hp
    unfold Publication.Timely at htime
    simp only [hc] at hstep
    cases hstage : p.stage with
    | ended => simp [hstage] at hstep
    | between =>
      rw [hstage] at hp htime
      cases hevent : p.events[p.next]? with
      | none =>
        simp only [hstage, hevent, Option.some.injEq] at hstep
        subst hstep
        exact ⟨⟨h.arranged.live, h.arranged.ids, h.arranged.arrays⟩,
          calls_setCall h.calls (hp.end hevent), h.logged⟩
      | some event =>
        rw [hevent] at htime
        simp only [hstage, hevent, Option.some.injEq] at hstep
        subst hstep
        exact h.publish hp hevent htime
    | delivering a i =>
      rw [hstage] at hp
      obtain ⟨event, hp⟩ := hp
      simp only [hstage, hp.current, Option.some.injEq] at hstep
      subst hstep
      obtain ⟨harranged, hcalls⟩ := visit_kept c h.arranged h.calls hp
      refine ⟨harranged, hcalls, ?_⟩
      obtain ⟨hlog, hpublished⟩ := log_visit_succ c p event i (h.arranged.arrays a hp.array)
      rw [hlog, hpublished]
      exact h.logged

theorem Kept.throws (h : s.Kept) {c : Nat} (hspares : Orderly s (.throws c))
    (hstep : s.throws c = some s') : s'.Kept := by
  unfold Bus.throws at hstep
  cases hc : s.calls[c]? with
  | none => simp [hc] at hstep
  | some p =>
    have hp := h.calls p (List.mem_of_getElem? hc)
    have hspare := hspares p hc
    unfold Publication.Kept at hp
    unfold Publication.Spares at hspare
    simp only [hc] at hstep
    cases hstage : p.stage with
    | ended => simp [hstage] at hstep
    | between => simp [hstage] at hstep
    | delivering a i =>
      rw [hstage] at hp
      obtain ⟨event, hp⟩ := hp
      rw [hstage, hp.current] at hspare
      simp only [hstage, hp.current] at hstep
      cases hk : (s.hub.array a)[i]? with
      | none => simp [hk] at hstep
      | some k =>
        simp only [hk, Option.ite_none_right_eq_some, Option.some.injEq] at hstep
        obtain ⟨-, rfl⟩ := hstep
        have hended := hp.throws (fun audience haudience k hk =>
            hspare.1 k (by rw [haudience]; exact hk)) hspare.2
        exact ⟨⟨h.arranged.live, h.arranged.ids, h.arranged.arrays⟩, calls_setCall h.calls hended,
          h.logged⟩

theorem Kept.setRow (h : s.Kept) {j : Nat} {state : InsertState}
    (hstate : ∀ row ∈ s.log[j]?, row.event.instanceId ≠ none → state ≠ .failed)
    (hstep : s.setRow j state = some s') : s'.Kept := by
  unfold Bus.setRow at hstep
  cases hj : s.log[j]? with
  | none => simp [hj] at hstep
  | some row =>
    simp only [hj, Option.ite_none_right_eq_some, Option.some.injEq] at hstep
    obtain ⟨-, rfl⟩ := hstep
    exact ⟨⟨h.arranged.live, h.arranged.ids, h.arranged.arrays⟩, h.calls,
      h.logged.setRow hj (hstate row hj)⟩

theorem Kept.step (h : s.Kept) {happening : Happening} (horderly : Orderly s happening)
    (hstep : s.step happening = some s') : s'.Kept := by
  cases happening with
  | subscribe scope f =>
    simp only [Bus.step, Option.ite_none_right_eq_some, Option.some.injEq] at hstep
    exact hstep.2 ▸ h.subscribe scope f
  | unsubscribe id =>
    unfold Bus.step at hstep
    cases hk : s.subscriptions[id]? with
    | none => simp [hk] at hstep
    | some k =>
      simp only [hk, Option.ite_none_left_eq_some, Option.some.injEq] at hstep
      exact hstep.2 ▸ h.unsubscribe hstep.1 (horderly k hk)
  | publishMany tenantId events =>
    simp only [Bus.step, Option.ite_none_right_eq_some, Option.some.injEq] at hstep
    exact hstep.2 ▸ h.publishMany tenantId events
  | proceed c => exact h.proceed horderly hstep
  | throws c => exact h.throws horderly hstep
  | clock now =>
    cases hstep
    exact ⟨⟨h.arranged.live, h.arranged.ids, h.arranged.arrays⟩, h.calls, h.logged⟩
  | inserted j =>
    have hinserted : InsertState.inserted ≠ .failed := by decide
    exact h.setRow (fun _ _ _ => hinserted) hstep
  | insertFails j =>
    exact h.setRow (fun row hrow hinstance => absurd (horderly row hrow) hinstance) hstep

theorem Kept.delivers (h : s.Kept) : Delivers s := by
  have hsound : ∀ p ∈ s.calls, p.Sound := by
    intro p hp
    have hkept := h.calls p hp
    unfold Publication.Kept at hkept
    cases hstage : p.stage with
    | between => rw [hstage] at hkept; exact hkept.sound
    | ended => rw [hstage] at hkept; exact hkept.sound
    | delivering a i =>
      rw [hstage] at hkept
      obtain ⟨_, hkept⟩ := hkept
      exact hkept.sound
  have hended : ∀ p ∈ s.calls, p.stage = .ended → p.Ended := by
    intro p hp hstage
    have hkept := h.calls p hp
    unfold Publication.Kept at hkept
    rw [hstage] at hkept
    exact hkept
  refine ⟨fun p hp => (hsound p hp).own, fun p hp => (hsound p hp).once, fun p hp n hn => ?_,
    fun p hp hstage => (hended p hp hstage).audiences, h.logged.published, fun _ _ _ hrows =>
      h.logged.listed hrows⟩
  rcases hn with hn | hstage
  · exact (hsound p hp).complete n hn
  · exact (hended p hp hstage).complete n

end Bus

/-! ## Runs -/

/-- In every orderly run of subscribers and calls of `publishMany`. -/
theorem bus_delivers {s : Bus} (h : Machine.Reaches Bus.step Orderly {} s) : Delivers s := by
  have harrayed : Arrayed [logSubscription] [logSubscription] :=
    ⟨List.nodup_singleton _, fun _ hk => hk, rfl⟩
  have hinit : Bus.Kept {} := by
    refine ⟨⟨rfl, fun i k hk => ?_, fun a ha => ?_⟩, nofun,
      ⟨rfl, fun _ _ => List.Pairwise.nil, nofun⟩⟩
    · obtain ⟨hi, rfl⟩ := List.getElem?_eq_some_iff.1 hk
      obtain rfl : i = 0 := by
        rw [List.length_singleton] at hi
        omega
      rfl
    · obtain rfl : a = 0 := Nat.le_zero.1 ha
      exact harrayed
  exact (h.keeps hinit fun hkept hC hstep => hkept.step hC hstep).delivers

/-- A subscription to the waiting tokens of a tenant. -/
def waiting (id : Nat) : Subscription := ⟨id, .wrapper id, .type "acme" "TokenWaiting"⟩

/-- The handler of a timer throws after the log has been written. -/
theorem bus_delivers_timer : ∃ s : Bus,
    s.calls.map (·.received) = [[(logSubscription, 0), (logSubscription, 1), (waiting 1, 1)]] ∧
      Delivers s := by
  have hrun : (Machine.runs Bus.step Orderly [.subscribe (.type "acme" "TokenWaiting") 0,
      .publishMany "acme" [⟨"ProcessInstanceStarted", some "i1"⟩, ⟨"TokenWaiting", some "i1"⟩],
        .proceed 0, .proceed 0,
      .proceed 0, .clock 1, .proceed 0, .proceed 0, .throws 0, .inserted 1, .inserted 0] {}).any
        (fun s =>
        s.calls.map (·.received) = [[(logSubscription, 0), (logSubscription, 1), (waiting 1, 1)]]) =
          true := by
    decide +kernel
  obtain ⟨s, hruns, hreceived⟩ := (Option.any_eq_true ..).1 hrun
  exact ⟨s, of_decide_eq_true hreceived, bus_delivers (.of_runs hruns)⟩

/-- The first of two handlers throws, and the other one is not called. -/
theorem not_bus_delivers : ¬ ∀ s : Bus, Machine.Reaches Bus.step (fun _ _ => True) {} s →
    Delivers s := by
  intro h
  have hrun : (Machine.runs Bus.step (fun _ _ => True) [.subscribe (.type "acme" "TokenWaiting") 0,
      .subscribe (.type "acme" "TokenWaiting") 1, .publishMany "acme" [⟨"TokenWaiting", some "i1"⟩],
        .proceed 0,
      .proceed 0, .throws 0] {}).any (fun s => s.calls.any fun p =>
        p.stage = .ended ∧ p.tenantId = "acme" ∧ p.events[0]? = some ⟨"TokenWaiting", some "i1"⟩ ∧
          p.audiences[0]? = some [logSubscription, waiting 1, waiting 2] ∧
          p.received = [(logSubscription, 0), (waiting 1, 0)]) = true := by
    decide +kernel
  obtain ⟨s, hruns, hcalls⟩ := (Option.any_eq_true ..).1 hrun
  obtain ⟨p, hp, hcall⟩ := List.any_eq_true.1 hcalls
  obtain ⟨hstage, htenant, hevent, haudience, hreceived⟩ := of_decide_eq_true hcall
  have hmissed := (h s (.of_runs hruns)).every p hp 0 (Or.inr hstage) _ _ hevent haudience
      (waiting 2) (by simp)
    (by rw [htenant]; decide)
  rw [hreceived] at hmissed
  exact absurd hmissed (by decide)

end NexusWorkflow.EventHub
