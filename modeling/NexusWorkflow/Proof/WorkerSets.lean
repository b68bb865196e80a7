import NexusWorkflow.Model.Workers

/-!
# One set of workers for each tenant

A set that is started is in the map or in the hands of a `stopTenant`.  The manager forgets it as
soon as the latter has taken it out, which is before the set has stopped: what a second set, or a
call that does not wait for the first one, can make of that is left to whoever calls it.
-/

namespace NexusWorkflow.Workers

variable {s s' : Manager} {t : String}

/-! ## The claims and what they rest on -/

/-- Started or about to be, and not yet stopped. -/
def WorkerSet.isLive (x : WorkerSet) : Bool :=
  x.phase ∈ [Phase.starting, .started, .stopping, .stopFailed]

/-- No set of the tenant is being stopped. -/
def Manager.Free (s : Manager) (tenantId : String) : Prop :=
  ∀ y ∈ s.stops, y.tenantId = tenantId → y.step = .finished

instance (s : Manager) (tenantId : String) : Decidable (s.Free tenantId) := by
  unfold Manager.Free; infer_instance

/-- The tenant is active, or no `remove` of it has been called since it is not. -/
def Manager.Timely (s : Manager) (tenantId : String) : Prop :=
  tenantId ∈ s.active ∨ .removal tenantId (s.changes.count tenantId) ∉ s.closings

instance (s : Manager) (tenantId : String) : Decidable (s.Timely tenantId) := by
  unfold Manager.Timely
  infer_instance

/-- No set that the call is for is being stopped already. -/
def Manager.Allows (s : Manager) : Closing → Prop
  | .removal t _ => t ∈ s.active ∨ s.Free t
  | .shutdown => ∀ y ∈ s.stops, y.step = .finished

instance (s : Manager) (c : Closing) : Decidable (s.Allows c) := by
  unfold Manager.Allows
  split <;> infer_instance

/-- The sets of workers that have been created since. -/
def createdSince (s s' : Manager) : List WorkerSet := s'.sets.drop s.sets.length

/-- Of the sets that count, there is no more than one of a tenant, none once `stop` has resolved,
and none of a tenant whose status has not changed since a `remove` that has resolved and that is not
active. -/
structure OneSetEach (counts : WorkerSet → Bool) (w : Workshop) : Prop where
  one : ∀ (i j : Nat) (x y : WorkerSet), w.state.sets[i]? = some x → w.state.sets[j]? = some y →
    counts x = true → counts y = true → x.tenantId = y.tenantId → i = j
  stopped : Process.done (.ok .stopped) ∈ w.processes → ∀ x ∈ w.state.sets, counts x = false
  removed : ∀ t n, Process.done (.ok (.removed t n)) ∈ w.processes → t ∉ w.state.active →
    w.state.changes.count t = n → ∀ x ∈ w.state.sets, x.tenantId = t → counts x = false

theorem OneSetEach.mono {counts counts' : WorkerSet → Bool} {w : Workshop}
    (hcounts : ∀ x, counts' x = true → counts x = true) (h : OneSetEach counts w) :
    OneSetEach counts' w where
  one i j x y hx hy hxc hyc hxy := h.one i j x y hx hy (hcounts x hxc) (hcounts y hyc) hxy
  stopped hstopped x hx :=
    Bool.eq_false_iff.2 fun hxc => Bool.eq_false_iff.1 (h.stopped hstopped x hx) (hcounts x hxc)
  removed t n hremoved hactive hn x hx hxt :=
    Bool.eq_false_iff.2 fun hxc =>
      Bool.eq_false_iff.1 (h.removed t n hremoved hactive hn x hx hxt) (hcounts x hxc)

/-- What the calls and the sets of workers have to heed in a step. -/
structure Orderly (w w' : Workshop) : Prop where
  /-- A set is created for a tenant when no other one of it is being stopped, and when it is active
  unless no `remove` has been called since it is not. -/
  creations : ∀ x ∈ createdSince w.state w'.state, w.state.Free x.tenantId ∧
    w.state.Timely x.tenantId
  /-- `stop`, and `remove` for a tenant that is not active, are called when no set that they are for
  is being stopped already. -/
  closings : ∀ c ∈ w'.state.closings.drop w.state.closings.length, w.state.Allows c
  /-- No set of workers fails to stop. -/
  stops : ∀ x ∈ w'.state.sets, x.phase ≠ .stopFailed

/-- Every set that is live is in the map or in the hands of a `stopTenant`, and no tenant has two of
them. -/
structure Manager.Kept (s : Manager) : Prop where
  entries : ∀ t e, s.running.get? t = some e → ∃ x, s.sets[e.2]? = some x ∧ x.tenantId = t
  held : ∀ (i : Nat) (x : WorkerSet), s.sets[i]? = some x → x.isLive = true →
    s.running.get? x.tenantId = some (x.tenantId, i) ∨
      ∃ y ∈ s.stops, y.workers = i ∧ y.tenantId = x.tenantId ∧ y.step ≠ .finished
  one : ∀ (i j : Nat) (x y : WorkerSet), s.sets[i]? = some x → s.sets[j]? = some y →
    x.isLive = true → y.isLive = true →
    x.tenantId = y.tenantId → i = j
  shut : s.stopped = true → ∀ t, s.running.get? t = none

/-- What a call or an event leaves as it was. -/
structure Follows (s s' : Manager) : Prop where
  closings : ∀ c ∈ s.closings, c ∈ s'.closings
  changes : ∀ t, s.changes.count t ≤ s'.changes.count t
  active : ∀ t, s'.changes.count t = s.changes.count t → (t ∈ s'.active ↔ t ∈ s.active)
  stopped : s.stopped = true → s'.stopped = true
  entries : ∀ t, s.running.get? t = none → s'.running.get? t = none ∨ ∃ x ∈ createdSince s s',
    x.tenantId = t
  created : s.stopped = true → createdSince s s' = []
  stops : ∀ (j : Nat) (y : StopTenant), s'.stops[j]? = some y → y.step ≠ .finished →
    (∃ y₀, s.stops[j]? = some y₀ ∧ y₀.tenantId = y.tenantId ∧ y₀.step ≠ .finished) ∨
      s.running.get? y.tenantId ≠ none

instance (w w' : Workshop) : Decidable (Orderly w w') := by
  refine decidable_of_iff
    ((∀ x ∈ createdSince w.state w'.state, w.state.Free x.tenantId ∧ w.state.Timely x.tenantId) ∧
    (∀ c ∈ w'.state.closings.drop w.state.closings.length, w.state.Allows c) ∧
    ∀ x ∈ w'.state.sets, x.phase ≠ .stopFailed)
      ⟨fun ⟨h, h', h''⟩ => ⟨h, h', h''⟩, fun h => ⟨h.1, h.2, h.3⟩⟩

theorem createdSince_self : createdSince s s = [] := List.drop_length

theorem Follows.refl (s : Manager) : Follows s s where
  closings _ h := h
  changes _ := Nat.le_refl _
  active _ _ := Iff.rfl
  stopped h := h
  entries _ h := .inl h
  created _ := createdSince_self
  stops _ y hy hstep := .inl ⟨y, hy, rfl, hstep⟩

/-! ## Creations -/

/-- The manager has created these sets, one after the other. -/
inductive Creates : Manager → List WorkerSet → Manager → Prop
  | refl (s : Manager) : Creates s [] s
  | create {s s' : Manager} {t : String} {l : List WorkerSet} (hnone : s.running.get? t = none)
      (hstopped : s.stopped = false) (h : Creates (s.create t) l s') :
      Creates s ({ tenantId := t } :: l) s'

theorem Creates.trans {s₁ s₂ s₃ : Manager} {l l' : List WorkerSet} (h : Creates s₁ l s₂)
    (h' : Creates s₂ l' s₃) : Creates s₁ (l ++ l') s₃ := by
  induction h with
  | refl s => exact h'
  | create hnone hstopped _ ih => exact .create hnone hstopped (ih h')

theorem creates_ensure {a : Except WorkerError Nat} (h : (s', a) ∈ s.ensure t) :
    ∃ l, Creates s l s' := by
  unfold Manager.ensure at h
  split_ifs at h with hstopped
  · cases List.mem_singleton.1 h
    exact ⟨[], .refl s⟩
  · split at h
    · cases List.mem_singleton.1 h
      exact ⟨[], .refl s⟩
    · next hnone =>
      simp only [List.mem_cons, List.not_mem_nil, or_false] at h
      rcases h with h | h
      · cases h
        exact ⟨_, .create hnone (by simpa using hstopped) (.refl _)⟩
      · cases h
        exact ⟨[], .refl s⟩

theorem creates_ensureAll {ts : List String} {sets : List (Option Nat)}
    (h : (s', sets) ∈ s.ensureAll ts) : ∃ l, Creates s l s' := by
  induction ts generalizing s sets with
  | nil =>
    cases List.mem_singleton.1 h
    exact ⟨[], .refl _⟩
  | cons t ts ih =>
    obtain ⟨⟨s₁, a⟩, hfirst, h⟩ := List.mem_flatMap.1 h
    obtain ⟨⟨s₂, rest⟩, hrest, h⟩ := List.mem_map.1 h
    cases h
    obtain ⟨l, hl⟩ := creates_ensure hfirst
    obtain ⟨l', hl'⟩ := ih hrest
    exact ⟨l ++ l', hl.trans hl'⟩

theorem Creates.sets {l : List WorkerSet} (h : Creates s l s') : s'.sets = s.sets ++ l := by
  induction h with
  | refl s => exact (List.append_nil _).symm
  | create _ _ _ ih =>
    rw [ih]
    exact List.append_assoc ..

theorem Creates.stops {l : List WorkerSet} (h : Creates s l s') : s'.stops = s.stops := by
  induction h with
  | refl s => rfl
  | create _ _ _ ih => exact ih

theorem Creates.created {l : List WorkerSet} (h : Creates s l s') : createdSince s s' = l := by
  unfold createdSince
  rw [h.sets, List.drop_left]

theorem Creates.follows {l : List WorkerSet} (h : Creates s l s') : Follows s s' := by
  induction h with
  | refl s => exact .refl s
  | @create s s' t l hnone hstopped h ih =>
    have hall : Creates s ({ tenantId := t } :: l) s' := .create hnone hstopped h
    refine ⟨ih.closings, ih.changes, ih.active, ih.stopped, fun t' ht' => ?_, fun h => ?_,
      fun j y hy hstep => ?_⟩
    · by_cases ht : t = t'
      · exact .inr ⟨_, hall.created ▸ List.mem_cons_self, ht⟩
      · have hnone' : (s.create t).running.get? t' = none :=
          (KeyedMap.get?_set_of_ne s.running (v := (t, s.sets.length)) ht).trans ht'
        rcases ih.entries t' hnone' with hrest | ⟨x, hx, hxt⟩
        · exact .inl hrest
        · rw [h.created] at hx
          exact .inr ⟨x, hall.created ▸ List.mem_cons_of_mem _ hx, hxt⟩
    · rw [hstopped] at h
      cases h
    · exact .inl ⟨y, hall.stops ▸ hy, rfl, hstep⟩

theorem Manager.Kept.none_live (h : s.Kept) (hnone : s.running.get? t = none) (hfree : s.Free t)
    {i : Nat} {x : WorkerSet} (hx : s.sets[i]? = some x) (hxt : x.tenantId = t) :
    x.isLive = false := by
  by_contra hlive
  rcases h.held i x hx (by simpa using hlive) with hentry | ⟨y, hy, -, hyt, hstep⟩
  · rw [hxt, hnone] at hentry
    cases hentry
  · exact hstep (hfree y hy (hyt.trans hxt))

theorem getElem?_append_cases {α : Type} {l l' : List α} {i : Nat} {x : α}
    (h : (l ++ l')[i]? = some x) : l[i]? = some x ∨ l.length ≤ i ∧ l'[i - l.length]? = some x := by
  by_cases hi : i < l.length
  · rw [List.getElem?_append_left hi] at h
    exact .inl h
  · rw [List.getElem?_append_right (by omega)] at h
    exact .inr ⟨by omega, h⟩

theorem getElem?_append_of_some {α : Type} {l l' : List α} {i : Nat} {x : α} (h : l[i]? = some x) :
    (l ++ l')[i]? = some x := by
  rw [List.getElem?_append_left (List.getElem?_eq_some_iff.1 h).1, h]

theorem Manager.Kept.create (h : s.Kept) (hnone : s.running.get? t = none)
    (hstopped : s.stopped = false) (hfree : s.Free t) : (s.create t).Kept := by
  have hget : ∀ {i : Nat} {x : WorkerSet}, (s.create t).sets[i]? = some x →
      s.sets[i]? = some x ∨ i = s.sets.length ∧ x = { tenantId := t } := by
    intro i x hx
    rcases getElem?_append_cases hx with hx | ⟨hle, hx⟩
    · exact .inl hx
    · have hlt : i - s.sets.length < 1 := (List.getElem?_eq_some_iff.1 hx).1
      obtain rfl : i = s.sets.length := by omega
      rw [Nat.sub_self] at hx
      exact .inr ⟨rfl, (Option.some.inj hx).symm⟩
  refine ⟨fun t' e he => ?_, fun i x hx hlive => ?_, fun i j x y hx hy hxl hyl hxy => ?_, fun hs =>
    ?_⟩
  · have he : (s.running.set (t, s.sets.length)).get? t' = some e := he
    rw [KeyedMap.get?_set] at he
    split_ifs at he with ht
    · cases he
      exact ⟨{ tenantId := t }, List.getElem?_concat_length, ht⟩
    · obtain ⟨x, hx, hxt⟩ := h.entries t' e he
      exact ⟨x, getElem?_append_of_some hx, hxt⟩
  · rcases hget hx with hx | ⟨rfl, rfl⟩
    · rcases h.held i x hx hlive with hentry | hstop
      · left
        have hne : t ≠ x.tenantId := by
          rintro rfl
          rw [hnone] at hentry
          cases hentry
        exact (KeyedMap.get?_set_of_ne s.running (v := (t, s.sets.length)) hne).trans hentry
      · exact .inr hstop
    · exact .inl (KeyedMap.get?_set_self s.running (t, s.sets.length))
  · rcases hget hx with hx | ⟨rfl, rfl⟩ <;> rcases hget hy with hy | ⟨rfl, rfl⟩
    · exact h.one i j x y hx hy hxl hyl hxy
    · rw [h.none_live hnone hfree hx hxy] at hxl
      cases hxl
    · rw [h.none_live hnone hfree hy hxy.symm] at hyl
      cases hyl
    · rfl
  · exact absurd (hstopped.symm.trans hs) (by simp)

theorem Creates.kept {l : List WorkerSet} (hcreates : Creates s l s') (h : s.Kept)
    (hfree : ∀ x ∈ l, s.Free x.tenantId) : s'.Kept := by
  induction hcreates with
  | refl s => exact h
  | create hnone hstopped _ ih =>
    refine ih (h.create hnone hstopped (hfree _ List.mem_cons_self)) fun x hx => ?_
    exact hfree x (List.mem_cons_of_mem _ hx)

/-! ## Stops -/

theorem get?_keep_key {α κ : Type} [DecidableEq κ] {key : α → κ} {m : KeyedMap key} {q : κ → Bool}
    {k : κ} : (m.keep fun v => q (key v)).get? k = if q k then m.get? k else none := by
  cases h : m.get? k with
  | none =>
    have hnone : (m.keep fun v => q (key v)).get? k = none :=
      KeyedMap.get?_eq_none_iff.2 fun v hv =>
        KeyedMap.get?_eq_none_iff.1 h v (List.mem_filter.1 hv).1
    rw [hnone]
    split_ifs <;> rfl
  | some v =>
    obtain ⟨hv, rfl⟩ := KeyedMap.get?_eq_some_iff.1 h
    split_ifs with hq
    · exact KeyedMap.get?_keep h hq
    · refine KeyedMap.get?_eq_none_iff.2 fun w hw hk => hq ?_
      rw [← hk]
      exact (List.mem_filter.1 hw).2

theorem get?_erase {α κ : Type} [DecidableEq κ] {key : α → κ} {m : KeyedMap key} {k k' : κ} :
    (m.erase k).get? k' = if k = k' then none else m.get? k' := by
  split_ifs with h
  · rw [h, KeyedMap.get?_erase_self]
  · exact KeyedMap.get?_erase_of_ne m h

theorem get?_stopTenants {p : String → Bool} :
    (s.stopTenants p).1.running.get? t = if p t then none else s.running.get? t := by
  show (s.running.keep fun e => !p e.1).get? t = _
  rw [get?_keep_key (q := fun k => !p k)]
  cases p t <;> rfl

/-- Each `stopTenant` was under way already, or it has taken the promise of its tenant out of the
map. -/
theorem stops_stopTenants {p : String → Bool} {j : Nat} {y : StopTenant}
    (h : (s.stopTenants p).1.stops[j]? = some y) :
    s.stops[j]? = some y ∨ j ∈ (s.stopTenants p).2 ∧ p y.tenantId = true ∧
      s.running.get? y.tenantId = some (y.tenantId, y.workers) := by
  rcases getElem?_append_cases h with h | ⟨hle, h⟩
  · exact .inl h
  · rw [List.getElem?_map] at h
    obtain ⟨e, he, rfl⟩ := Option.map_eq_some_iff.1 h
    obtain ⟨hmem, hp⟩ := List.mem_filter.1 (List.mem_of_getElem? he)
    refine .inr ⟨List.mem_map.2 ⟨j - s.stops.length, ?_, by omega⟩, hp, KeyedMap.get?_of_mem hmem⟩
    exact List.mem_range.2 (List.getElem?_eq_some_iff.1 he).1

theorem Manager.Kept.stopTenants (h : s.Kept) (p : String → Bool) : (s.stopTenants p).1.Kept := by
  refine ⟨fun t e he => ?_, fun i x hx hlive => ?_, h.one, fun hs t => ?_⟩
  · rw [get?_stopTenants] at he
    split_ifs at he
    exact h.entries t e he
  · rcases h.held i x hx hlive with hentry | ⟨y, hy, hrest⟩
    · by_cases hp : p x.tenantId = true
      · refine .inr ⟨{ tenantId := x.tenantId, workers := i }, ?_, rfl, rfl, by simp⟩
        have htaken : (x.tenantId, i) ∈ s.running.values.filter (p ·.1) :=
          List.mem_filter.2 ⟨KeyedMap.mem_of_get? hentry, hp⟩
        exact List.mem_append_right _ (List.mem_map.2 ⟨_, htaken, rfl⟩)
      · rw [get?_stopTenants, if_neg hp]
        exact .inl hentry
    · exact .inr ⟨y, List.mem_append_left _ hy, hrest⟩
  · rw [get?_stopTenants]
    split_ifs
    · rfl
    · exact h.shut hs t

theorem follows_stopTenants {p : String → Bool} : Follows s (s.stopTenants p).1 :=
  { (Follows.refl s : Follows s s) with
    entries := fun t ht => by
      rw [get?_stopTenants]
      split_ifs
      · exact .inl rfl
      · exact .inl ht
    stops := fun j y hy hstep => by
      rcases stops_stopTenants hy with hy | ⟨-, -, hentry⟩
      · exact .inl ⟨y, hy, rfl, hstep⟩
      · exact .inr (by simp [hentry]) }

/-! ## Events -/

theorem get?_modify {α : Type} {l : List α} {f : α → α} {i j : Nat} {x : α}
    (h : (l.modify i f)[j]? = some x) : ∃ x₀, l[j]? = some x₀ ∧ x = if i = j then f x₀ else x₀ := by
  rw [List.getElem?_modify] at h
  obtain ⟨x₀, hx₀, rfl⟩ := Option.map_eq_some_iff.1 h
  exact ⟨x₀, hx₀, rfl⟩

/-- A set that is live afterwards was live before. -/
theorem Manager.Kept.setPhase (h : s.Kept) {i : Nat} {phase : Phase}
    (hlive : ∀ x : WorkerSet, s.sets[i]? = some x → { x with phase }.isLive = true →
    x.isLive = true) :
    (s.setPhase i phase).Kept := by
  have hget : ∀ {j : Nat} {x : WorkerSet}, (s.setPhase i phase).sets[j]? = some x →
      ∃ x₀, s.sets[j]? = some x₀ ∧ x.tenantId = x₀.tenantId ∧
        (x.isLive = true → x₀.isLive = true) := by
    intro j x hx
    obtain ⟨x₀, hx₀, rfl⟩ := get?_modify hx
    split_ifs with hij
    · exact ⟨x₀, hx₀, rfl, hlive x₀ (hij ▸ hx₀)⟩
    · exact ⟨x₀, hx₀, rfl, fun hl => hl⟩
  refine ⟨fun t e he => ?_, fun j x hx hl => ?_, fun j k x y hx hy hxl hyl hxy => ?_, h.shut⟩
  · obtain ⟨x, hx, hxt⟩ := h.entries t e he
    refine ⟨if i = e.2 then { x with phase } else x, ?_, by split_ifs <;> exact hxt⟩
    show (s.sets.modify i _)[e.2]? = _
    rw [List.getElem?_modify, hx]
    rfl
  · obtain ⟨x₀, hx₀, ht, hl₀⟩ := hget hx
    rw [ht]
    exact h.held j x₀ hx₀ (hl₀ hl)
  · obtain ⟨x₀, hx₀, hxt, hxl₀⟩ := hget hx
    obtain ⟨y₀, hy₀, hyt, hyl₀⟩ := hget hy
    exact h.one j k x₀ y₀ hx₀ hy₀ (hxl₀ hxl) (hyl₀ hyl) (hxt.symm.trans (hxy.trans hyt))

/-- A `stopTenant` that is finished afterwards has no live set in its hands. -/
theorem Manager.Kept.setStep (h : s.Kept) {j : Nat} {step : StopStep}
    (hstep : step = .finished → ∀ y, s.stops[j]? = some y →
      ∀ x : WorkerSet, s.sets[y.workers]? = some x → x.isLive = false) :
    (s.setStep j step).Kept := by
  refine ⟨h.entries, fun i x hx hlive => ?_, h.one, h.shut⟩
  rcases h.held i x hx hlive with hentry | ⟨y, hy, hi, hyt, hunfinished⟩
  · exact .inl hentry
  · obtain ⟨k, hk⟩ := List.mem_iff_getElem?.1 hy
    have hmem : (if j = k then { y with step } else y) ∈ (s.setStep j step).stops := by
      refine List.mem_iff_getElem?.2 ⟨k, ?_⟩
      show (s.stops.modify j _)[k]? = _
      rw [List.getElem?_modify, hk]
      rfl
    refine .inr ⟨_, hmem, by split_ifs <;> exact hi, by split_ifs <;> exact hyt, ?_⟩
    split_ifs with hjk
    · intro hfinished
      rw [hstep hfinished y (hjk ▸ hk) x (hi ▸ hx)] at hlive
      cases hlive
    · exact hunfinished

theorem follows_setPhase {i : Nat} {phase : Phase} : Follows s (s.setPhase i phase) :=
  { (Follows.refl s : Follows s s) with
    entries := fun _ ht => .inl ht
    created := fun _ => List.drop_eq_nil_of_le (Nat.le_of_eq (List.length_modify ..)) }

theorem follows_setStep {j : Nat} {step : StopStep}
    (hstep : ∀ y, s.stops[j]? = some y → step ≠ .finished → y.step ≠ .finished) :
    Follows s (s.setStep j step) :=
  { (Follows.refl s : Follows s s) with
    stops := fun k y hy hunfinished => by
      obtain ⟨y₀, hy₀, rfl⟩ := get?_modify hy
      split_ifs at hunfinished ⊢ with hjk
      · exact .inl ⟨y₀, hy₀, rfl, hstep y₀ (hjk ▸ hy₀) hunfinished⟩
      · exact .inl ⟨y₀, hy₀, rfl, hunfinished⟩ }

theorem Follows.trans_events {s₁ s₂ s₃ : Manager} (h : Follows s₁ s₂) (h' : Follows s₂ s₃)
    (hsame : s₂.sets.length = s₁.sets.length) (hrunning : s₂.running = s₁.running) :
    Follows s₁ s₃ := by
  have hcreated : createdSince s₂ s₃ = createdSince s₁ s₃ := by
    unfold createdSince
    rw [hsame]
  refine ⟨fun c hc => h'.closings c (h.closings c hc),
    fun t => Nat.le_trans (h.changes t) (h'.changes t),
    fun t ht => ?_, fun hs => h'.stopped (h.stopped hs), fun t ht => ?_, fun hs =>
      ?_, fun j y hy hstep => ?_⟩
  · have h₁ := h.changes t
    have h₂ := h'.changes t
    exact (h'.active t (by omega)).trans (h.active t (by omega))
  · exact hcreated ▸ h'.entries t (hrunning ▸ ht)
  · exact hcreated ▸ h'.created (h.stopped hs)
  · rcases h'.stops j y hy hstep with ⟨y₀, hy₀, ht, hstep₀⟩ | hentry
    · rw [← ht]
      exact h.stops j y₀ hy₀ hstep₀
    · exact .inr (hrunning ▸ hentry)

theorem phase_of_isStarting {i : Nat} {x : WorkerSet} (h : s.isStarting i = true)
    (hx : s.sets[i]? = some x) : x.phase = .starting := by
  unfold Manager.isStarting at h
  rw [hx] at h
  exact of_decide_eq_true h

theorem Manager.Kept.startSettles (h : s.Kept) {i : Nat} {succeeds : Bool} :
    (s.startSettles i succeeds).Kept := by
  unfold Manager.startSettles
  by_cases hstarting : s.isStarting i = true
  · rw [if_pos hstarting]
    refine h.setPhase fun x hx _ => ?_
    simp [WorkerSet.isLive, phase_of_isStarting hstarting hx]
  · rw [if_neg hstarting]
    exact h

theorem Manager.Kept.forget (h : s.Kept) {i : Nat} : (s.forget i).Kept := by
  unfold Manager.forget
  split
  · exact h
  · next x hx =>
    split_ifs with hfailed
    · obtain ⟨hphase, hentry⟩ := hfailed
      refine ⟨fun t e he => ?_, fun j y hy hlive => ?_, h.one, fun hs t => ?_⟩
      · have he : (s.running.erase x.tenantId).get? t = some e := he
        rw [get?_erase] at he
        split_ifs at he
        exact h.entries t e he
      · rcases h.held j y hy hlive with hentry' | hstop
        · left
          have hne : x.tenantId ≠ y.tenantId := by
            intro heq
            rw [heq, hentry'] at hentry
            cases hentry
            cases hx.symm.trans hy
            simp [WorkerSet.isLive, hphase] at hlive
          exact (KeyedMap.get?_erase_of_ne _ hne).trans hentry'
        · exact .inr hstop
      · show (s.running.erase x.tenantId).get? t = none
        rw [get?_erase, h.shut hs t, ite_self]
    · exact h

theorem Manager.Kept.resume (h : s.Kept) {j : Nat} : (s.resume j).Kept := by
  unfold Manager.resume
  split
  · exact h
  · next y hy =>
    split_ifs with hawaiting
    · split
      · next hphase =>
        obtain ⟨x, hx, hstarted⟩ := Option.map_eq_some_iff.1 hphase
        refine Manager.Kept.setStep (h.setPhase fun x' hx' _ => ?_) (by simp)
        cases hx.symm.trans hx'
        simp [WorkerSet.isLive, hstarted]
      · next hphase =>
        obtain ⟨x, hx, hfailed⟩ := Option.map_eq_some_iff.1 hphase
        refine h.setStep fun _ y' hy' x' hx' => ?_
        cases hy.symm.trans hy'
        cases hx.symm.trans hx'
        simp [WorkerSet.isLive, hfailed]
      · exact h
    · exact h

theorem Manager.Kept.stopSettles (h : s.Kept) {j : Nat} {succeeds : Bool}
    (hstops : ∀ x ∈ (s.stopSettles j succeeds).sets, x.phase ≠ .stopFailed) :
    (s.stopSettles j succeeds).Kept := by
  unfold Manager.stopSettles at hstops ⊢
  split
  · exact h
  · next y hy =>
    by_cases hawaiting : y.step = .awaitingStop
    · simp only [hy, if_pos hawaiting] at hstops ⊢
      generalize hphase : (if succeeds then Phase.stopped else .stopFailed) = phase at hstops ⊢
      -- the set is there only if it has stopped
      have hstopped : ∀ x, s.sets[y.workers]? = some x → phase = .stopped := by
        intro x hx
        have hmem : { x with phase } ∈ (s.setPhase y.workers phase).sets := by
          refine List.mem_iff_getElem?.2 ⟨y.workers, ?_⟩
          show (s.sets.modify y.workers _)[y.workers]? = _
          rw [List.getElem?_modify, hx]
          simp
        have hne : phase ≠ .stopFailed := hstops _ hmem
        split_ifs at hphase
        · exact hphase.symm
        · exact absurd hphase.symm hne
      refine Manager.Kept.setStep (h.setPhase fun x hx hlive => ?_) fun _ y' hy' x' hx' => ?_
      · rw [hstopped x hx] at hlive
        cases hlive
      · cases hy.symm.trans hy'
        obtain ⟨x, hx, rfl⟩ := get?_modify hx'
        simp [WorkerSet.isLive, hstopped x hx]
    · rw [if_neg hawaiting]
      exact h

theorem follows_startSettles {i : Nat} {succeeds : Bool} :
    Follows s (s.startSettles i succeeds) := by
  unfold Manager.startSettles
  by_cases hstarting : s.isStarting i = true
  · rw [if_pos hstarting]
    exact follows_setPhase
  · rw [if_neg hstarting]
    exact .refl s

theorem follows_forget {i : Nat} : Follows s (s.forget i) := by
  unfold Manager.forget
  split
  · exact .refl s
  · next x hx =>
    split_ifs
    · refine { (Follows.refl s : Follows s s) with entries := fun t ht => .inl ?_ }
      show (s.running.erase x.tenantId).get? t = none
      rw [get?_erase, ht, ite_self]
    · exact .refl s

theorem follows_resume {j : Nat} : Follows s (s.resume j) := by
  unfold Manager.resume
  split
  · exact .refl s
  · next y hy =>
    split_ifs with hawaiting
    · split
      · refine follows_setPhase.trans_events (follows_setStep fun y' hy' _ => ?_)
          (List.length_modify ..) rfl
        cases hy.symm.trans hy'
        rw [hawaiting]
        simp
      · exact follows_setStep fun _ _ h => absurd rfl h
      · exact .refl s
    · exact .refl s

theorem follows_stopSettles {j : Nat} {succeeds : Bool} : Follows s (s.stopSettles j succeeds) := by
  unfold Manager.stopSettles
  split
  · exact .refl s
  · split_ifs
    · exact follows_setPhase.trans_events (follows_setStep fun _ _ h => absurd rfl h)
        (List.length_modify ..) rfl
    · exact follows_setPhase.trans_events (follows_setStep fun _ _ h => absurd rfl h)
        (List.length_modify ..) rfl
    · exact .refl s

theorem follows_setActive {active : Bool} : Follows s (s.setActive t active) := by
  refine { (Follows.refl s : Follows s s) with changes := fun t' => ?_, active := fun t' ht' => ?_ }
  · show _ ≤ (s.changes ++ [t]).count t'
    rw [List.count_append]
    exact Nat.le_add_right ..
  · have ht' : (s.changes ++ [t]).count t' = s.changes.count t' := ht'
    have hne : t' ≠ t := by
      rintro rfl
      rw [List.count_append, List.count_singleton_self] at ht'
      omega
    show t' ∈ (if active then s.active ∪ [t] else s.active.filter (· ≠ t)) ↔ _
    split_ifs
    · simp [hne]
    · simp [hne]

theorem Manager.Kept.event (h : s.Kept) (e : Event)
    (hstops : ∀ x ∈ (e.apply s).sets, x.phase ≠ .stopFailed) : (e.apply s).Kept := by
  cases e with
  | startSettles i succeeds => exact h.startSettles
  | forget i => exact h.forget
  | resume j => exact h.resume
  | stopSettles j succeeds => exact h.stopSettles hstops
  | setActive t active => exact ⟨h.entries, h.held, h.one, h.shut⟩

theorem follows_event (e : Event) : Follows s (e.apply s) := by
  cases e with
  | startSettles i succeeds => exact follows_startSettles
  | forget i => exact follows_forget
  | resume j => exact follows_resume
  | stopSettles j succeeds => exact follows_stopSettles
  | setActive t active => exact follows_setActive

/-! ## Operations -/

/-- What an operation does. -/
inductive Effect (s : Manager) : Manager → Prop
  | same : Effect s s
  | syncing (b : Bool) : Effect s { s with syncing := b }
  | creates {l : List WorkerSet} {s' : Manager} (h : Creates s l s') : Effect s s'
  | stopOthers (p : String → Bool) : Effect s (s.stopTenants p).1
  | remove (t : String) : Effect s { (s.stopTenants (· = t)).1 with
      closings := s.closings ++ [.removal t (s.changes.count t)] }
  | stop : Effect s { (s.stopTenants fun _ => true).1 with
      stopped := true, closings := s.closings ++ [.shutdown] }

theorem effect_of_outcomes {op : WorkerOp} {a : Except WorkerError op.Answer}
    (h : (s', a) ∈ s.outcomes op) : Effect s s' := by
  have hone : ∀ {s₁ : Manager} {b : Except WorkerError op.Answer}, Effect s s₁ →
      (s', a) ∈ [(s₁, b)] → Effect s s' := by
    intro s₁ b heffect h
    cases List.mem_singleton.1 h
    exact heffect
  cases op with
  | ensure t =>
    obtain ⟨l, hl⟩ := creates_ensure h
    exact .creates hl
  | ensureAll ts =>
    obtain ⟨⟨s₁, sets⟩, hmem, h⟩ := List.mem_map.1 h
    cases h
    obtain ⟨l, hl⟩ := creates_ensureAll hmem
    exact .creates hl
  | awaitStart i =>
    simp only [Manager.outcomes] at h
    split_ifs at h
    · cases h
    · exact hone .same h
    · exact hone .same h
  | enterSync =>
    simp only [Manager.outcomes] at h
    split_ifs at h
    · exact hone .same h
    · exact hone (.syncing true) h
  | listActiveTenantIds =>
    rcases List.mem_cons.1 h with h | h
    · cases h
      exact .same
    · exact hone .same h
  | awaitStarts sets =>
    simp only [Manager.outcomes] at h
    split_ifs at h
    · cases h
    · exact hone .same h
  | awaitStops stops =>
    simp only [Manager.outcomes] at h
    split_ifs at h
    · exact hone .same h
    · cases h
  | stopOthers active => exact hone (.stopOthers _) h
  | leaveSync => exact hone (.syncing false) h
  | remove t => exact hone (.remove t) h
  | stop => exact hone .stop h

theorem Effect.follows (h : Effect s s') : Follows s s' := by
  cases h with
  | same => exact .refl s
  | syncing b => exact { (Follows.refl s : Follows s s) with created := fun _ => createdSince_self }
  | creates hl => exact hl.follows
  | stopOthers p => exact follows_stopTenants
  | remove t =>
    have hfollows : Follows s (s.stopTenants (· = t)).1 := follows_stopTenants
    exact { hfollows with closings := fun c hc => List.mem_append_left _ hc }
  | stop =>
    have hfollows : Follows s (s.stopTenants fun _ => true).1 := follows_stopTenants
    exact { hfollows with closings := fun c hc => List.mem_append_left _ hc, stopped := fun _ =>
      rfl }

theorem Effect.kept (h : Effect s s') (hs : s.Kept)
    (hfree : ∀ x ∈ createdSince s s', s.Free x.tenantId) : s'.Kept := by
  cases h with
  | same => exact hs
  | syncing b => exact ⟨hs.entries, hs.held, hs.one, hs.shut⟩
  | creates hl => exact hl.kept hs fun x hx => hfree x (hl.created ▸ hx)
  | stopOthers p => exact hs.stopTenants p
  | remove t =>
    have hkept := hs.stopTenants (· = t)
    exact ⟨hkept.entries, hkept.held, hkept.one, hkept.shut⟩
  | stop =>
    have hkept := hs.stopTenants fun _ => true
    refine ⟨hkept.entries, hkept.held, hkept.one, fun _ t => ?_⟩
    show (s.stopTenants fun _ => true).1.running.get? t = none
    rw [get?_stopTenants, if_pos rfl]

/-! ## Calls that wait -/

/-- If the status of the tenant has not changed since and it is not active, then it has no set in
the map, and each `stopTenant` of it that is under way is among these. -/
structure Manager.Handled (s : Manager) (t : String) (n : Nat) (ids : List Nat) : Prop where
  closing : .removal t n ∈ s.closings
  changes : n ≤ s.changes.count t
  none : t ∉ s.active → s.changes.count t = n → s.running.get? t = none
  stops : t ∉ s.active → s.changes.count t = n →
    ∀ (j : Nat) (y : StopTenant), s.stops[j]? = some y → y.tenantId = t → y.step ≠ .finished →
      j ∈ ids

/-- The manager is stopped, and each `stopTenant` that is under way is among these. -/
structure Manager.Shut (s : Manager) (ids : List Nat) : Prop where
  stopped : s.stopped = true
  stops : ∀ (j : Nat) (y : StopTenant), s.stops[j]? = some y → y.step ≠ .finished → j ∈ ids

/-- Neither `remove` nor `stop` has resolved. -/
def Reply.IsPlain : Reply → Prop
  | ensured | synced => True
  | removed _ _ | stopped => False

/-- How far a call is, and what holds by then. -/
inductive Stage (s : Manager) : WorkerProcess → Prop
  | plain {p : WorkerProcess}
      (h : p.onlyReturns fun r => ∀ reply, r = .ok reply → reply.IsPlain) : Stage s p
  | remove {t : String} {next : Except WorkerError Removal → WorkerProcess}
      (h : ∀ removal, next (.ok removal) =
        (do await (.awaitStops removal.stops); return .removed t removal.changes :
          Task Reply).run) :
      Stage s (.call (.remove t) next)
  | removing {t : String} {n : Nat} {ids : List Nat}
      {next : Except WorkerError Unit → WorkerProcess}
      (h : next (.ok ()) = .done (.ok (.removed t n))) (hs : s.Handled t n ids) :
      Stage s (.call (.awaitStops ids) next)
  | removed {t : String} {n : Nat} (hs : s.Handled t n []) : Stage s (.done (.ok (.removed t n)))
  | stop {next : Except WorkerError (List Nat) → WorkerProcess}
      (h : ∀ ids, next (.ok ids) = (do await (.awaitStops ids); return .stopped : Task Reply).run) :
      Stage s (.call .stop next)
  | stopping {ids : List Nat} {next : Except WorkerError Unit → WorkerProcess}
      (h : next (.ok ()) = .done (.ok .stopped)) (hs : s.Shut ids) :
        Stage s (.call (.awaitStops ids) next)
  | stopped (hs : s.Shut []) : Stage s (.done (.ok .stopped))

theorem stage_program (call : WorkerCall) : Stage s call.program := by
  cases call with
  | ensure t =>
    refine .plain (Async.onlyReturns_bind fun i => Async.onlyReturns_bind fun _ => ?_)
    exact Async.onlyReturns_pure trivial
  | sync =>
    refine .plain (Async.onlyReturns_bind fun entered => ?_)
    split_ifs
    · refine Async.onlyReturns_bind fun result => Async.onlyReturns_bind fun _ => ?_
      split
      · exact Async.onlyReturns_pure trivial
      · exact Async.onlyReturns_throw
    · exact Async.onlyReturns_pure trivial
  | remove t => exact .remove fun _ => rfl
  | stop => exact .stop fun _ => rfl

theorem Manager.Handled.follows {n : Nat} {ids : List Nat} (h : s.Handled t n ids)
    (hf : Follows s s') (hcreations : ∀ x ∈ createdSince s s', s.Timely x.tenantId) :
    s'.Handled t n ids := by
  have hsame : t ∉ s'.active → s'.changes.count t = n → s.changes.count t = n ∧ t ∉ s.active := by
    intro hactive hn
    have hle := hf.changes t
    have hn₀ : s.changes.count t = n := by
      have := h.changes
      omega
    exact ⟨hn₀, fun h => hactive ((hf.active t (hn.trans hn₀.symm)).2 h)⟩
  refine ⟨hf.closings _ h.closing, Nat.le_trans h.changes (hf.changes t), fun hactive hn => ?_,
    fun hactive hn j y hy hyt hstep => ?_⟩
  · obtain ⟨hn₀, hactive₀⟩ := hsame hactive hn
    rcases hf.entries t (h.none hactive₀ hn₀) with hnone | ⟨x, hx, rfl⟩
    · exact hnone
    · rcases hcreations x hx with h' | h'
      · exact absurd h' hactive₀
      · exact absurd h.closing (hn₀ ▸ h')
  · obtain ⟨hn₀, hactive₀⟩ := hsame hactive hn
    rcases hf.stops j y hy hstep with ⟨y₀, hy₀, hyt₀, hstep₀⟩ | hentry
    · exact h.stops hactive₀ hn₀ j y₀ hy₀ (hyt₀.trans hyt) hstep₀
    · exact absurd (hyt ▸ h.none hactive₀ hn₀) hentry

theorem Manager.Shut.follows {ids : List Nat} (h : s.Shut ids) (hs : s.Kept) (hf : Follows s s') :
    s'.Shut ids := by
  refine ⟨hf.stopped h.stopped, fun j y hy hstep => ?_⟩
  rcases hf.stops j y hy hstep with ⟨y₀, hy₀, -, hstep₀⟩ | hentry
  · exact h.stops j y₀ hy₀ hstep₀
  · exact absurd (hs.shut h.stopped _) hentry

/-- Another call takes a step, or something happens to a set. -/
theorem Stage.follows {p : WorkerProcess} (h : Stage s p) (hs : s.Kept) (hf : Follows s s')
    (hcreations : ∀ x ∈ createdSince s s', s.Timely x.tenantId) : Stage s' p := by
  cases h with
  | plain h => exact .plain h
  | remove h => exact .remove h
  | removing h hhandled => exact .removing h (hhandled.follows hf hcreations)
  | removed hhandled => exact .removed (hhandled.follows hf hcreations)
  | stop h => exact .stop h
  | stopping h hshut => exact .stopping h (hshut.follows hs hf)
  | stopped hshut => exact .stopped (hshut.follows hs hf)

theorem handled_remove (hallows : s.Allows (.removal t (s.changes.count t))) :
    Manager.Handled { (s.stopTenants (· = t)).1 with
      closings := s.closings ++ [.removal t (s.changes.count t)] }
      t (s.changes.count t) (s.stopTenants (· = t)).2 := by
  refine ⟨List.mem_append_right _ (List.mem_singleton_self _), Nat.le_refl _, fun _ _ => ?_,
    fun hactive _ j y hy hyt hstep => ?_⟩
  · show (s.stopTenants (· = t)).1.running.get? t = none
    rw [get?_stopTenants, if_pos (by simp)]
  · have hy : (s.stopTenants (· = t)).1.stops[j]? = some y := hy
    rcases stops_stopTenants hy with hy | ⟨hj, -⟩
    · rcases hallows with hactive' | hfree
      · exact absurd hactive' hactive
      · exact absurd (hfree y (List.mem_of_getElem? hy) hyt) hstep
    · exact hj

theorem shut_stop (hallows : s.Allows .shutdown) :
    Manager.Shut { (s.stopTenants fun _ => true).1 with
      stopped := true, closings := s.closings ++ [.shutdown] }
      (s.stopTenants fun _ => true).2 := by
  refine ⟨rfl, fun j y hy hstep => ?_⟩
  have hy : (s.stopTenants fun _ => true).1.stops[j]? = some y := hy
  rcases stops_stopTenants hy with hy | ⟨hj, -⟩
  · exact absurd (hallows y (List.mem_of_getElem? hy)) hstep
  · exact hj

theorem step_of_isFinished {ids : List Nat} (h : ids.all s.isFinished = true) {j : Nat}
    (hj : j ∈ ids) {y : StopTenant} (hy : s.stops[j]? = some y) : y.step = .finished := by
  have hfinished := List.all_eq_true.1 h j hj
  unfold Manager.isFinished at hfinished
  rw [hy] at hfinished
  exact of_decide_eq_true hfinished

/-- The call itself takes a step. -/
theorem Stage.call {op : WorkerOp} {next : Except WorkerError op.Answer → WorkerProcess}
    {a : Except WorkerError op.Answer} (h : Stage s (.call op next))
    (hmem : (s', a) ∈ s.outcomes op)
    (hclosings : ∀ c ∈ s'.closings.drop s.closings.length, s.Allows c) : Stage s' (next a) := by
  cases h with
  | plain h => exact .plain (h a)
  | remove h =>
    cases List.mem_singleton.1 hmem
    rw [h]
    refine .removing rfl (handled_remove (hclosings _ ?_))
    rw [List.drop_left]
    exact List.mem_singleton_self _
  | stop h =>
    cases List.mem_singleton.1 hmem
    rw [h]
    refine .stopping rfl (shut_stop (hclosings _ ?_))
    rw [List.drop_left]
    exact List.mem_singleton_self _
  | removing h hhandled =>
    simp only [Manager.outcomes] at hmem
    split_ifs at hmem with hfinished
    · cases List.mem_singleton.1 hmem
      rw [h]
      refine .removed ⟨hhandled.closing, hhandled.changes, hhandled.none,
        fun hactive hn j y hy hyt hstep => ?_⟩
      exact absurd (step_of_isFinished hfinished (hhandled.stops hactive hn j y hy hyt hstep) hy)
        hstep
    · cases hmem
  | stopping h hshut =>
    simp only [Manager.outcomes] at hmem
    split_ifs at hmem with hfinished
    · cases List.mem_singleton.1 hmem
      rw [h]
      refine .stopped ⟨hshut.stopped, fun j y hy hstep => ?_⟩
      exact absurd (step_of_isFinished hfinished (hshut.stops j y hy hstep) hy) hstep
    · cases hmem

/-! ## Runs -/

/-- Any run. -/
abbrev Workshop.Leads : Workshop → Workshop → Prop :=
  World.Leads Manager.outcomes WorkerCall.program Event.apply fun _ _ => True

/-- A run in which every step meets the condition. -/
abbrev Workshop.LeadsBy (K : Workshop → Workshop → Prop) : Workshop → Workshop → Prop :=
  World.LeadsBy Manager.outcomes WorkerCall.program Event.apply K

structure Workshop.Kept (w : Workshop) : Prop where
  state : w.state.Kept
  stages : ∀ p ∈ w.processes, Stage w.state p

theorem Workshop.Kept.step {w w' : Workshop} (h : w.Kept)
    (hmove : World.Moves Manager.outcomes WorkerCall.program Event.apply (fun _ _ => True) w w')
    (hK : Orderly w w') : w'.Kept := by
  cases hmove with
  | start call =>
    refine ⟨h.state, fun p hp => ?_⟩
    rcases List.mem_append.1 hp with hp | hp
    · exact h.stages p hp
    · rw [List.mem_singleton.1 hp]
      exact stage_program call
  | @call i op next s a hi hmem _ =>
    have heffect : Effect w.state s := effect_of_outcomes hmem
    refine ⟨heffect.kept h.state fun x hx => (hK.creations x hx).1, fun p hp => ?_⟩
    rcases List.mem_or_eq_of_mem_set hp with hp | rfl
    · exact (h.stages p hp).follows h.state heffect.follows fun x hx => (hK.creations x hx).2
    · exact (h.stages _ (List.mem_of_getElem? hi)).call hmem hK.closings
  | tick e =>
    refine ⟨h.state.event e hK.stops, fun p hp => ?_⟩
    exact (h.stages p hp).follows h.state (follows_event e) fun x hx => (hK.creations x hx).2

theorem isLive_of_isRunning {x : WorkerSet} (h : x.isRunning = true) : x.isLive = true := by
  unfold WorkerSet.isRunning at h
  unfold WorkerSet.isLive
  simp only [List.mem_cons, List.not_mem_nil, or_false, decide_eq_true_eq] at h ⊢
  exact .inr h

/-- A tenant with no promise in the map, of which no set is being stopped, has no set that is
started or about to be. -/
theorem Manager.Kept.not_live (h : s.Kept) (hnone : s.running.get? t = none)
    (hstops : ∀ (j : Nat) (y : StopTenant), s.stops[j]? = some y → y.tenantId = t →
      y.step = .finished)
    {x : WorkerSet} (hx : x ∈ s.sets) (hxt : x.tenantId = t) : x.isLive = false := by
  obtain ⟨i, hi⟩ := List.mem_iff_getElem?.1 hx
  have hfree : s.Free t := fun y hy hyt => by
    obtain ⟨j, hj⟩ := List.mem_iff_getElem?.1 hy
    exact hstops j y hj hyt
  exact h.none_live hnone hfree hi hxt

theorem Workshop.Kept.oneSetEach {w : Workshop} (h : w.Kept) : OneSetEach WorkerSet.isLive w := by
  refine ⟨h.state.one, fun hstopped x hx => ?_, fun t n hremoved hactive hn x hx hxt => ?_⟩
  · cases h.stages _ hstopped with
    | plain hplain => exact (hplain _ rfl).elim
    | stopped hshut =>
      refine h.state.not_live (h.state.shut hshut.stopped _) (fun j y hy _ => ?_) hx rfl
      by_contra hstep
      exact absurd (hshut.stops j y hy hstep) List.not_mem_nil
  · cases h.stages _ hremoved with
    | plain hplain => exact (hplain _ rfl).elim
    | removed hhandled =>
      refine h.state.not_live (hhandled.none hactive hn) (fun j y hy hyt => ?_) hx hxt
      by_contra hstep
      exact absurd (hhandled.stops hactive hn j y hy hyt hstep) List.not_mem_nil

/-- In every orderly run there is one set of workers at most for each tenant, none once the manager
has stopped, and none of a tenant that has been removed and stays inactive: of the sets that are
started, and also when those about to be are counted. -/
theorem one_worker_set {active : List String} {w : Workshop}
    (hw : Workshop.LeadsBy Orderly ⟨{ active }, []⟩ w) :
    OneSetEach WorkerSet.isRunning w ∧ OneSetEach WorkerSet.isLive w := by
  have hinit : Workshop.Kept ⟨{ active }, []⟩ := by
    refine ⟨⟨fun t e he => ?_, fun i x hx => ?_, fun i j x y hx => ?_, fun hs => ?_⟩, fun p hp =>
      ?_⟩
    · cases he
    · cases hx
    · cases hx
    · cases hs
    · cases hp
  have hlive := (World.LeadsBy.keeps hw hinit fun v v' h hmove hK => h.step hmove hK).oneSetEach
  exact ⟨hlive.mono fun _ => isLive_of_isRunning, hlive⟩

/-- A request of Acme starts its workers; Acme is suspended, and its workers are being stopped. -/
def suspension : List (World.Turn WorkerCall Event) :=
  [.start (.ensure "acme"), .call 0 0, .tick (.startSettles 0 true), .call 0 0,
    .tick (.setActive "acme" false), .start (.remove "acme"), .call 1 0, .tick (.resume 0)]

/-- They stop, and `remove` resolves. -/
theorem one_worker_set_suspension : ∃ w : Workshop, w.state.sets = [⟨"acme", .stopped⟩] ∧
    OneSetEach WorkerSet.isRunning w ∧ OneSetEach WorkerSet.isLive w := by
  have hrun : ((⟨{ active := ["acme"] }, []⟩ : Workshop).playsBy Manager.outcomes WorkerCall.program
      Event.apply
      Orderly (suspension ++ [.tick (.stopSettles 0 true), .call 1 0])).any
        (fun w => w.state.sets = [⟨"acme", .stopped⟩]) = true := by
    decide +kernel
  obtain ⟨w, hplay, hsets⟩ := (Option.any_eq_true ..).1 hrun
  exact ⟨w, of_decide_eq_true hsets, one_worker_set (.of_playsBy hplay)⟩

/-- Acme is activated again before they have stopped, and the next request starts other ones. -/
theorem not_one_worker_set :
    ¬ ∀ (active : List String) (w : Workshop), Workshop.Leads ⟨{ active }, []⟩ w →
      OneSetEach WorkerSet.isRunning w := by
  intro h
  have hrun : ((⟨{ active := ["acme"] }, []⟩ : Workshop).plays Manager.outcomes WorkerCall.program
      Event.apply
      (fun _ _ => True) (suspension ++
        [.tick (.setActive "acme" true), .start (.ensure "acme"), .call 2 0,
          .tick (.startSettles 1 true)])).any
        (fun w => w.state.sets = [⟨"acme", .stopping⟩, ⟨"acme", .started⟩]) = true := by
    decide +kernel
  obtain ⟨w, hplay, hsets⟩ := (Option.any_eq_true ..).1 hrun
  have hsets : w.state.sets = [⟨"acme", .stopping⟩, ⟨"acme", .started⟩] := of_decide_eq_true hsets
  have hone := (h ["acme"] w (.of_plays hplay)).one 0 1 ⟨"acme", .stopping⟩ ⟨"acme", .started⟩
    (by rw [hsets]; rfl) (by rw [hsets]; rfl) rfl rfl rfl
  cases hone

end NexusWorkflow.Workers
