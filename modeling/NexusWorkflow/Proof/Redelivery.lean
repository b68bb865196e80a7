import NexusWorkflow.Model.StreamConsumer

/-!
# What the stream consumer handles

The consumer keeps its promises in every run in which nothing comes between an entry and its
acknowledgement: no update of the database fails, a restart finds at most a hundred entries, and
Redis does not fail before they are handled.  An entry is acknowledged also when its handling has
failed, and an error of Redis ends the recovery.
-/

namespace NexusWorkflow.StreamConsumer

open Machine (Outcome)

variable {parse : JsonParse} {tenantId : String}

/-! ## Entries -/

/-- The value of a field. -/
def value (fields : List (String × String)) (name : String) : Option String :=
  (fields.find? fun field => field.1 = name).map Prod.snd

/-- No value before the field reads like the field's name. -/
def Clear (name : String) : List (String × String) → Prop
  | [] => True
  | (field, value) :: rest => field = name ∨ value ≠ name ∧ Clear name rest

instance decidableClear (name : String) : (fields : List (String × String)) →
    Decidable (Clear name fields)
  | [] => isTrue trivial
  | (_, _) :: rest => haveI := decidableClear name rest; inferInstanceAs (Decidable (_ ∨ _))

theorem idxOf?_flatten_cons (name field v : String) (rest : List (String × String)) :
    (flatten ((field, v) :: rest)).idxOf? name =
      if field = name then some 0
      else if v = name then some 1
      else ((flatten rest).idxOf? name).map (· + 2) := by
  unfold flatten
  rw [List.flatMap_cons, List.cons_append, List.idxOf?_cons, List.cons_append, List.idxOf?_cons,
    List.nil_append]
  by_cases hfield : field = name
  · simp [hfield]
  · by_cases hv : v = name <;> simp [hfield, hv, Function.comp_def]

theorem idxOf?_flatten_of_none {name : String} {fields : List (String × String)}
    (h : Clear name fields) (hnone : value fields name = none) :
    (flatten fields).idxOf? name = none := by
  induction fields with
  | nil => rfl
  | cons field rest ih =>
    obtain ⟨field, v⟩ := field
    rw [idxOf?_flatten_cons]
    unfold value at hnone
    by_cases hfield : field = name
    · simp [hfield] at hnone
    · obtain ⟨hv, hrest⟩ := h.resolve_left hfield
      rw [if_neg hfield, if_neg hv, ih hrest (by simpa [value, hfield] using hnone)]
      rfl

theorem idxOf?_flatten_of_some {name v : String} {fields : List (String × String)}
    (h : Clear name fields) (hv : value fields name = some v) :
    ∃ i, (flatten fields).idxOf? name = some i ∧ (flatten fields)[i + 1]? = some v := by
  induction fields with
  | nil => cases hv
  | cons field rest ih =>
    obtain ⟨field, w⟩ := field
    rw [idxOf?_flatten_cons]
    by_cases hfield : field = name
    · refine ⟨0, if_pos hfield, ?_⟩
      simp only [value, hfield, List.find?_cons, decide_true, Option.map_some,
        Option.some.injEq] at hv
      simp [flatten, hv]
    · obtain ⟨hw, hrest⟩ := h.resolve_left hfield
      obtain ⟨i, hi, hnext⟩ := ih hrest (by simpa [value, hfield] using hv)
      refine ⟨i + 2, ?_, ?_⟩
      · rw [if_neg hfield, if_neg hw, hi]
        rfl
      · simpa [flatten] using hnext

namespace StreamEntry

variable (parse tenantId) (entry : StreamEntry)

/-- The entry is tagged with the tenant. -/
def Own : Prop := value entry.fields "tenantId" = some tenantId

/-- What the data of the entry says. -/
def event : Option WorkflowEvent :=
  match value entry.fields "data" with
  | none => none
  | some data =>
    match parse data with
    | .error _ => none
    | .ok event => event

/-- A well-formed entry of the tenant. -/
def Wanted : Prop := entry.Own tenantId ∧ (entry.event parse).isSome

/-- The fields are found by their names. -/
def Legible : Prop := Clear "tenantId" entry.fields ∧
    (entry.Own tenantId → Clear "data" entry.fields)

instance : Decidable (entry.Own tenantId) := inferInstanceAs (Decidable (_ = _))

instance : Decidable (entry.Wanted parse tenantId) := inferInstanceAs (Decidable (_ ∧ _))

instance : Decidable (entry.Legible tenantId) := inferInstanceAs (Decidable (_ ∧ (_ → _)))

variable {entry}

theorem parseStreamEntry_of_legible (h : entry.Legible tenantId) :
    parseStreamEntry parse (flatten entry.fields) tenantId =
      if entry.Own tenantId then
        match value entry.fields "data" with
        | none => .ok none
        | some data => parse data
      else .ok none := by
  unfold parseStreamEntry
  cases htenant : value entry.fields "tenantId" with
  | none =>
    have hown : ¬ entry.Own tenantId := by simp [Own, htenant]
    rw [idxOf?_flatten_of_none h.1 htenant, if_neg hown]
  | some tenant =>
    obtain ⟨i, hi, hnext⟩ := idxOf?_flatten_of_some h.1 htenant
    rw [hi]
    dsimp only
    rw [hnext]
    by_cases hown : entry.Own tenantId
    · have htenant' : tenant = tenantId := Option.some.inj (htenant.symm.trans hown)
      rw [if_neg (by simp [htenant']), if_pos hown]
      cases hdata : value entry.fields "data" with
      | none => rw [idxOf?_flatten_of_none (h.2 hown) hdata]
      | some data =>
        obtain ⟨j, hj, hnext'⟩ := idxOf?_flatten_of_some (h.2 hown) hdata
        rw [hj]
        dsimp only
        rw [hnext']
    · have htenant' : tenant ≠ tenantId := fun heq => hown (by rw [Own, htenant, heq])
      rw [if_pos (by simpa using htenant'), if_neg hown]

theorem own_of_parse (h : entry.Legible tenantId) {event : WorkflowEvent}
    (hparse : parseStreamEntry parse (flatten entry.fields) tenantId = .ok (some event)) :
    entry.Own tenantId := by
  rw [parseStreamEntry_of_legible parse tenantId h] at hparse
  by_contra hown
  simp [hown] at hparse

theorem parse_of_wanted (h : entry.Legible tenantId) (hwanted : entry.Wanted parse tenantId) :
    ∃ event, parseStreamEntry parse (flatten entry.fields) tenantId = .ok (some event) := by
  obtain ⟨hown, hevent⟩ := hwanted
  rw [parseStreamEntry_of_legible parse tenantId h, if_pos hown]
  unfold event at hevent
  cases hdata : value entry.fields "data" with
  | none => simp [hdata] at hevent
  | some data =>
    cases hparse : parse data with
    | error e => simp [hdata, hparse] at hevent
    | ok event =>
      obtain ⟨event, rfl⟩ := Option.isSome_iff_exists.1 (by simpa [hdata, hparse] using hevent)
      exact ⟨event, hparse⟩

end StreamEntry

/-! ## Updates -/

theorem updateMany_updateMany (table : Table) {where_ : ProfileUpdateRequest → Bool}
    {data : ProfileUpdateRequest → ProfileUpdateRequest}
    (h : ∀ r, where_ r = true → where_ (data r) = true → data (data r) = data r) :
    (table.updateMany where_ data).updateMany where_ data = table.updateMany where_ data := by
  unfold Table.updateMany
  rw [List.map_map]
  refine List.map_congr_left fun r _ => ?_
  rw [Function.comp_apply]
  by_cases hr : where_ r = true
  · rw [if_pos hr]
    by_cases hdata : where_ (data r) = true
    · rw [if_pos hdata, h r hr hdata]
    · rw [if_neg hdata]
  · rw [if_neg hr, if_neg hr]

/-- An event that is handled twice has the effect that it has when it is handled once. -/
theorem handle_handle (event : WorkflowEvent) (table : Table) :
    handle event (handle event table) = handle event table := by
  unfold handle
  cases hevent : handleEvent event with
  | none => rfl
  | some update =>
    dsimp only
    unfold handleEvent at hevent
    by_cases hterminated : event.type = "ProcessInstanceTerminated"
    · rw [if_pos hterminated] at hevent
      obtain ⟨instanceId, -, rfl⟩ := Option.map_eq_some_iff.1 hevent
      exact updateMany_updateMany table fun r _ _ => rfl
    · rw [if_neg hterminated] at hevent
      by_cases hrestarted : event.type = "ProcessInstanceRestarted"
      · rw [if_pos hrestarted] at hevent
        cases hid : truthy event.instanceId with
        | none => simp [hid] at hevent
        | some instanceId =>
          cases hfrom : truthy event.restartedFromId with
          | none => simp [hid, hfrom] at hevent
          | some restartedFromId =>
            simp only [hid, hfrom, Option.some.injEq] at hevent
            subst hevent
            exact updateMany_updateMany table fun r _ _ => rfl
      · simp [hrestarted] at hevent

/-! ## What the consumer promises -/

variable (parse tenantId)

/-- The consumer has done all that it does at its start. -/
def Phase.started : Phase → Bool
  | .reading .live | .handling .live _ _ | .acking .live _ _ _ | .rejected => true
  | _ => false

structure LosesNothing (s : Consumer) : Prop where
  acked : ∀ entry ∈ s.acked, entry.Wanted parse tenantId → entry ∈ s.handled
  recovered : s.phase.started = true → ∀ entry ∈ s.toRecover, entry.Wanted parse tenantId →
    entry ∈ s.handledSince
  own : ∀ entry ∈ s.handled, entry.Own tenantId
  again : ∀ event table, handle event (handle event table) = handle event table

/-- The call that the consumer waits for in this phase keeps no wanted entry from being handled. -/
def GoesOn (s : Consumer) (outcome : Outcome) : Phase → Prop
  | .ensureGroup | .reading .pending =>
    outcome = .ok ∨ ∀ entry ∈ s.pending, ¬ entry.Wanted parse tenantId
  | .handling _ entry _ => entry.Legible tenantId
  | .acking .pending _ missed rest =>
    missed = false ∧ (outcome = .ok ∨ ∀ entry ∈ rest, ¬ entry.Wanted parse tenantId)
  | .acking .live _ missed _ => missed = false ∨ outcome = .failed
  | .down | .reading .live | .rejected => True

instance decidableGoesOn (s : Consumer) (outcome : Outcome) : (phase : Phase) →
    Decidable (GoesOn parse tenantId s outcome phase)
  | .ensureGroup | .reading .pending => inferInstanceAs (Decidable (_ ∨ ∀ entry ∈ s.pending, ¬ _))
  | .handling _ entry _ => inferInstanceAs (Decidable (entry.Legible tenantId))
  | .acking .pending _ _ rest => inferInstanceAs (Decidable (_ ∧ (_ ∨ ∀ entry ∈ rest, ¬ _)))
  | .acking .live _ _ _ => inferInstanceAs (Decidable (_ ∨ _))
  | .down | .reading .live | .rejected => isTrue trivial

/-- Nothing comes between a wanted entry and its acknowledgement. -/
def Undisturbed (s : Consumer) : Happening → Prop
  | .start => ∀ entry ∈ s.pending.drop 100, ¬ entry.Wanted parse tenantId
  | .call outcome => GoesOn parse tenantId s outcome s.phase
  | .add _ | .change _ | .crash => True

instance decidableUndisturbed (s : Consumer) :
    (h : Happening) → Decidable (Undisturbed parse tenantId s h)
  | .start =>
      inferInstanceAs (Decidable (∀ entry ∈ s.pending.drop 100, ¬ entry.Wanted parse tenantId))
  | .call outcome => inferInstanceAs (Decidable (GoesOn parse tenantId s outcome s.phase))
  | .add _ | .change _ | .crash => isTrue trivial

/-! ## What a step keeps -/

/-- What the entries that have been acknowledged and handled have in common. -/
structure Faithful (s : Consumer) : Prop where
  acked : ∀ entry ∈ s.acked, entry.Wanted parse tenantId → entry ∈ s.handled
  own : ∀ entry ∈ s.handled, entry.Own tenantId

/-- All that was pending at the start has been handled since, but for these entries. -/
def Recovers (s : Consumer) (left : List StreamEntry) : Prop :=
  ∀ entry ∈ s.toRecover, entry.Wanted parse tenantId → entry ∈ s.handledSince ∨ entry ∈ left

/-- What the recovery has left to do when these entries are left of the batch. -/
def Pass.left : Pass → List StreamEntry → List StreamEntry
  | .pending, entries => entries
  | .live, _ => []

def AtPhase (s : Consumer) : Phase → Prop
  | .down => True
  | .ensureGroup | .reading .pending =>
    Recovers parse tenantId s s.pending ∧ ∀ entry ∈ s.pending.drop 100,
      ¬ entry.Wanted parse tenantId
  | .reading .live | .rejected => Recovers parse tenantId s []
  | .handling pass entry rest => Recovers parse tenantId s (pass.left (entry :: rest))
  | .acking pass entry missed rest =>
    Recovers parse tenantId s (pass.left (if missed then entry :: rest else rest)) ∧
      (missed = false → entry.Wanted parse tenantId → entry ∈ s.handled)

structure Kept (s : Consumer) : Prop where
  faithful : Faithful parse tenantId s
  phase : AtPhase parse tenantId s s.phase

variable {parse tenantId} {s s' : Consumer} {pass : Pass} {entry : StreamEntry}
    {rest : List StreamEntry}

theorem Recovers.of_unwanted {left : List StreamEntry} (h : Recovers parse tenantId s left)
    (hleft : ∀ entry ∈ left, ¬ entry.Wanted parse tenantId) : Recovers parse tenantId s [] := by
  intro entry hentry hwanted
  exact Or.inl ((h entry hentry hwanted).resolve_right fun hin => hleft entry hin hwanted)

theorem Faithful.acknowledge (h : Faithful parse tenantId s)
    (hentry : entry.Wanted parse tenantId → entry ∈ s.handled) :
    Faithful parse tenantId (s.acknowledge entry) := by
  refine ⟨fun e he hwanted => ?_, h.own⟩
  rcases List.mem_append.1 he with he | he
  · exact h.acked e he hwanted
  · obtain rfl := List.mem_singleton.1 he
    exact hentry hwanted

theorem Faithful.handle (h : Faithful parse tenantId s) (hown : entry.Own tenantId)
    (update : Table → Table) : Faithful parse tenantId (s.handle entry update) := by
  refine ⟨fun e he hwanted => List.mem_append_left _ (h.acked e he hwanted), fun e he => ?_⟩
  rcases List.mem_append.1 he with he | he
  · exact h.own e he
  · obtain rfl := List.mem_singleton.1 he
    exact hown

theorem Kept.serve (h : Faithful parse tenantId s) {left : List StreamEntry}
    (hleft : Recovers parse tenantId s (pass.left left)) :
    Kept parse tenantId (s.serve pass left) := by
  cases left with
  | nil =>
    refine ⟨⟨h.acked, h.own⟩, ?_⟩
    cases pass with
    | pending => exact hleft
    | live => exact hleft
  | cons entry rest => exact ⟨⟨h.acked, h.own⟩, hleft⟩

theorem Kept.error (h : Faithful parse tenantId s) {left : List StreamEntry}
    (hleft : Recovers parse tenantId s (pass.left left))
    (hunwanted : pass = .pending → ∀ entry ∈ left, ¬ entry.Wanted parse tenantId) :
    Kept parse tenantId (s.error pass) := by
  refine ⟨?_, ?_⟩
  · cases pass <;> exact ⟨h.acked, h.own⟩
  · cases pass with
    | pending => exact hleft.of_unwanted (hunwanted rfl)
    | live => exact hleft

/-- What comes of the `try` block: nothing was to be done, the update took effect, or it failed. -/
theorem handleEntry_cases {outcome : Outcome} (hlegible : entry.Legible tenantId)
    (h : s.handleEntry parse tenantId pass entry rest outcome = some s') :
    ¬ entry.Wanted parse tenantId ∧ s' = { s with phase := .acking pass entry false rest } ∨
      entry.Own tenantId ∧ (∃ update,
        s' = { s.handle entry update with phase := .acking pass entry false rest }) ∨
      s' = { s with phase := .acking pass entry true rest } := by
  unfold Consumer.handleEntry at h
  cases hparse : parseStreamEntry parse (flatten entry.fields) tenantId with
  | error e =>
    simp only [hparse, Option.ite_none_right_eq_some, Option.some.injEq] at h
    refine Or.inl ⟨fun hwanted => ?_, h.2.symm⟩
    obtain ⟨event, hevent⟩ := StreamEntry.parse_of_wanted parse tenantId hlegible hwanted
    rw [hparse] at hevent
    cases hevent
  | ok event =>
    cases event with
    | none =>
      simp only [hparse, Option.ite_none_right_eq_some, Option.some.injEq] at h
      refine Or.inl ⟨fun hwanted => ?_, h.2.symm⟩
      obtain ⟨event, hevent⟩ := StreamEntry.parse_of_wanted parse tenantId hlegible hwanted
      rw [hparse] at hevent
      cases hevent
    | some event =>
      have hown := StreamEntry.own_of_parse parse tenantId hlegible hparse
      simp only [hparse] at h
      cases hupdate : handleEvent event with
      | none =>
        cases outcome with
        | ok =>
          simp only [hupdate, Option.some.injEq] at h
          exact Or.inr (Or.inl ⟨hown, id, h.symm⟩)
        | failed => simp [hupdate] at h
        | lost => simp [hupdate] at h
      | some update =>
        cases outcome with
        | ok =>
          simp only [hupdate, Option.some.injEq] at h
          exact Or.inr (Or.inl ⟨hown, update, h.symm⟩)
        | failed =>
          simp only [hupdate, Option.some.injEq] at h
          exact Or.inr (Or.inr h.symm)
        | lost =>
          simp only [hupdate, Option.some.injEq] at h
          exact Or.inr (Or.inl ⟨hown, update, h.symm⟩)

theorem Kept.handleEntry (hfaithful : Faithful parse tenantId s)
    (hleft : Recovers parse tenantId s (pass.left (entry :: rest))) {outcome : Outcome}
    (hlegible : entry.Legible tenantId)
    (h : s.handleEntry parse tenantId pass entry rest outcome = some s') :
    Kept parse tenantId s' := by
  rcases handleEntry_cases hlegible h with ⟨hunwanted, rfl⟩ | ⟨hown, update, rfl⟩ | rfl
  · refine ⟨⟨hfaithful.acked, hfaithful.own⟩, ?_, fun _ hwanted => absurd hwanted hunwanted⟩
    intro e he hwanted
    rcases hleft e he hwanted with hsince | hin
    · exact Or.inl hsince
    · cases pass with
      | pending =>
        rcases List.mem_cons.1 hin with rfl | hin
        · exact absurd hwanted hunwanted
        · exact Or.inr hin
      | live => cases hin
  · have hhandled := hfaithful.handle hown update
    refine ⟨⟨hhandled.acked, hhandled.own⟩, ?_, fun _ _ =>
      List.mem_append_right _ (List.mem_singleton_self entry)⟩
    intro e he hwanted
    rcases hleft e he hwanted with hsince | hin
    · exact Or.inl (List.mem_append_left _ hsince)
    · cases pass with
      | pending =>
        rcases List.mem_cons.1 hin with rfl | hin
        · exact Or.inl (List.mem_append_right _ (List.mem_singleton_self e))
        · exact Or.inr hin
      | live => cases hin
  · exact ⟨⟨hfaithful.acked, hfaithful.own⟩, hleft, fun hmissed => by cases hmissed⟩

theorem Kept.call (h : Kept parse tenantId s) {outcome : Outcome}
    (hundisturbed : Undisturbed parse tenantId s (.call outcome))
    (hcall : s.call parse tenantId outcome = some s') : Kept parse tenantId s' := by
  obtain ⟨hfaithful, hphase⟩ := h
  unfold Consumer.call at hcall
  unfold Undisturbed at hundisturbed
  cases hs : s.phase with
  | down => simp [hs] at hcall
  | rejected => simp [hs] at hcall
  | ensureGroup =>
    rw [hs] at hcall hundisturbed hphase
    cases outcome with
    | ok =>
      cases hcall
      exact ⟨⟨hfaithful.acked, hfaithful.own⟩, hphase⟩
    | failed =>
      cases hcall
      exact ⟨⟨hfaithful.acked, hfaithful.own⟩,
        hphase.1.of_unwanted (hundisturbed.resolve_left nofun)⟩
    | lost =>
      cases hcall
      exact ⟨⟨hfaithful.acked, hfaithful.own⟩,
        hphase.1.of_unwanted (hundisturbed.resolve_left nofun)⟩
  | reading pass =>
    rw [hs] at hcall hundisturbed hphase
    cases pass with
    | pending =>
      cases outcome with
      | ok =>
        cases hcall
        refine Kept.serve hfaithful fun e he hwanted => ?_
        -- what is not read is not wanted
        refine (hphase.1 e he hwanted).imp_right fun hin => ?_
        rw [← List.take_append_drop 100 s.pending, List.mem_append] at hin
        exact hin.resolve_right fun hdrop => hphase.2 e hdrop hwanted
      | failed =>
        cases hcall
        exact ⟨⟨hfaithful.acked, hfaithful.own⟩,
          hphase.1.of_unwanted (hundisturbed.resolve_left nofun)⟩
      | lost =>
        cases hcall
        exact ⟨⟨hfaithful.acked, hfaithful.own⟩,
          hphase.1.of_unwanted (hundisturbed.resolve_left nofun)⟩
    | live =>
      have hdelivered : ∀ entries, Faithful parse tenantId (s.deliver entries) :=
        fun _ => ⟨hfaithful.acked, hfaithful.own⟩
      cases outcome with
      | ok =>
        cases hcall
        exact Kept.serve (hdelivered _) hphase
      | failed =>
        cases hcall
        exact ⟨hfaithful, by rw [hs]; exact hphase⟩
      | lost =>
        cases hcall
        refine ⟨hdelivered _, ?_⟩
        unfold Consumer.deliver
        dsimp only
        rw [hs]
        exact hphase
  | handling pass entry rest =>
    rw [hs] at hcall hundisturbed hphase
    exact Kept.handleEntry hfaithful hphase hundisturbed hcall
  | acking pass entry missed rest =>
    rw [hs] at hcall hundisturbed hphase
    have hgood : missed = false ∨ outcome = .failed ∧ pass = .live := by
      cases pass with
      | pending => exact Or.inl hundisturbed.1
      | live => exact hundisturbed.imp_right fun h => ⟨h, rfl⟩
    rcases hgood with rfl | ⟨rfl, rfl⟩
    · have hunwanted : pass = .pending → outcome ≠ .ok → ∀ e ∈ rest, ¬ e.Wanted parse tenantId := by
        rintro rfl hok
        exact hundisturbed.2.resolve_left hok
      have hacked : Faithful parse tenantId (s.acknowledge entry) :=
          hfaithful.acknowledge (hphase.2 rfl)
      cases outcome with
      | ok =>
        cases hcall
        exact Kept.serve hacked hphase.1
      | failed =>
        cases hcall
        exact Kept.error hfaithful hphase.1 fun hpass => hunwanted hpass nofun
      | lost =>
        cases hcall
        exact Kept.error hacked hphase.1 fun hpass => hunwanted hpass nofun
    · cases hcall
      exact Kept.error hfaithful hphase.1 nofun

theorem Kept.step (h : Kept parse tenantId s) {happening : Happening}
    (hundisturbed : Undisturbed parse tenantId s happening)
    (hstep : s.step parse tenantId happening = some s') : Kept parse tenantId s' := by
  have ⟨hfaithful, hphase⟩ := h
  cases happening with
  | add fields =>
    cases hstep
    refine ⟨⟨hfaithful.acked, hfaithful.own⟩, ?_⟩
    dsimp only
    cases hs : s.phase <;> rw [hs] at hphase <;> exact hphase
  | change table =>
    cases hstep
    refine ⟨⟨hfaithful.acked, hfaithful.own⟩, ?_⟩
    dsimp only
    cases hs : s.phase <;> rw [hs] at hphase <;> exact hphase
  | start =>
    unfold Consumer.step at hstep
    split_ifs at hstep
    cases hstep
    exact ⟨⟨hfaithful.acked, hfaithful.own⟩, fun _ he _ => Or.inr he, hundisturbed⟩
  | crash =>
    unfold Consumer.step at hstep
    split_ifs at hstep
    cases hstep
    exact ⟨⟨hfaithful.acked, hfaithful.own⟩, trivial⟩
  | call outcome => exact h.call hundisturbed hstep

/-! ## Runs -/

theorem Kept.losesNothing (h : Kept parse tenantId s) : LosesNothing parse tenantId s := by
  obtain ⟨hfaithful, hphase⟩ := h
  refine ⟨hfaithful.acked, fun hstarted e he hwanted => ?_, hfaithful.own, handle_handle⟩
  cases hs : s.phase with
  | down => simp [hs, Phase.started] at hstarted
  | ensureGroup => simp [hs, Phase.started] at hstarted
  | reading pass =>
    rw [hs] at hphase hstarted
    cases pass with
    | pending => cases hstarted
    | live => exact (hphase e he hwanted).resolve_right List.not_mem_nil
  | handling pass =>
    rw [hs] at hphase hstarted
    cases pass with
    | pending => cases hstarted
    | live => exact (hphase e he hwanted).resolve_right List.not_mem_nil
  | acking pass =>
    rw [hs] at hphase hstarted
    cases pass with
    | pending => cases hstarted
    | live => exact (hphase.1 e he hwanted).resolve_right List.not_mem_nil
  | rejected =>
    rw [hs] at hphase
    exact (hphase e he hwanted).resolve_right List.not_mem_nil

variable (parse tenantId) in
/-- In every undisturbed run of the consumer, its process, Redis and the database. -/
theorem consumer_loses_nothing {table : Table}
    (h : Machine.Reaches (Consumer.step parse tenantId) (Undisturbed parse tenantId) { table } s) :
    LosesNothing parse tenantId s := by
  have hinit : Kept parse tenantId { table } := ⟨⟨nofun, nofun⟩, trivial⟩
  exact (h.keeps hinit fun hkept hC hstep => hkept.step hC hstep).losesNothing

/-- The data of the entries below. -/
def terminated : JsonParse
  | "terminated" => .ok (some { type := "ProcessInstanceTerminated", instanceId := some "i1" })
  | _ => .error .syntaxError

/-- The process ends before an entry is acknowledged, and handles it again when it is started. -/
theorem consumer_loses_nothing_restart : ∃ s : Consumer,
    s.acked = [⟨0, [("data", "terminated"), ("tenantId", "nexus-erp")]⟩] ∧
      LosesNothing terminated "nexus-erp" s := by
  have hrun : (Machine.runs (Consumer.step terminated "nexus-erp")
      (Undisturbed terminated "nexus-erp")
      [.start, .call .ok, .call .ok, .add [("data", "terminated"), ("tenantId", "nexus-erp")],
        .call .ok, .call .ok,
        .crash, .start, .call .ok, .call .ok, .call .ok, .call .ok]
          { table := [⟨"r1", .PENDING, some "i1"⟩] }).any
      (fun s => s.acked = [⟨0, [("data", "terminated"), ("tenantId", "nexus-erp")]⟩]) = true := by
    decide +kernel
  obtain ⟨s, hruns, hacked⟩ := (Option.any_eq_true ..).1 hrun
  exact ⟨s, of_decide_eq_true hacked, consumer_loses_nothing terminated "nexus-erp"
    (.of_runs hruns)⟩

/-- The database fails, and the entry is acknowledged. -/
theorem not_consumer_loses_nothing :
    ¬ ∀ (parse : JsonParse) (tenantId : String) (table : Table) (s : Consumer),
      Machine.Reaches (Consumer.step parse tenantId) (fun _ _ => True) { table } s →
        LosesNothing parse tenantId s := by
  intro h
  have hrun : (Machine.runs (Consumer.step terminated "nexus-erp") (fun _ _ => True)
      [.start, .call .ok, .call .ok, .add [("data", "terminated"), ("tenantId", "nexus-erp")],
        .call .ok,
        .call .failed, .call .ok] { table := [⟨"r1", .PENDING, some "i1"⟩] }).any
      (fun s => s.acked = [⟨0, [("data", "terminated"), ("tenantId", "nexus-erp")]⟩] ∧
        s.handled = []) = true := by
    decide +kernel
  obtain ⟨s, hruns, hs⟩ := (Option.any_eq_true ..).1 hrun
  obtain ⟨hacked, hhandled⟩ := of_decide_eq_true hs
  have hin := (h _ _ _ s (.of_runs hruns)).acked
      ⟨0, [("data", "terminated"), ("tenantId", "nexus-erp")]⟩
    (by simp [hacked]) (by decide)
  rw [hhandled] at hin
  cases hin

end NexusWorkflow.StreamConsumer
