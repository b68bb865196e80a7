import NexusWorkflow.Game.Fate
import NexusWorkflow.Model.History
import NexusWorkflow.Run.Diagram
import NexusWorkflow.Run.Reload

/-!
# The step history of a run

Every call finishes some tokens, and its history has one entry for each of them.  A token that is
over stays over, so that the entries of a run are those of the tokens that are over in the end.  Its
status stays, too, unless a cancelled token is completed by its last child: then the entry says that
it was cancelled, and the state that it was completed.
-/

namespace NexusWorkflow

open ExecutionContext

variable {d : ProcessDefinition} {P Q P' : Pool} {origins : List Origin} {x t w : Token}

theorem Token.ended_iff : t.ended = true ↔ t.Finished := by
  simp [ended, Finished]

/-! ## The history of one cycle -/

section Derive

variable {jsonLength : Variables → Nat} {oldState : Option EngineState} {newState : EngineState}
  {events : List CycleEvent} {maxBytes : Nat}

/-- The tokens that the cycle finished. -/
def finishedIn (oldState : Option EngineState) (newState : EngineState) : List Token :=
  newState.tokens.filter fun t => t.id ∉ wasOver oldState && t.ended

theorem mem_finishedIn : t ∈ finishedIn oldState newState ↔
    t ∈ newState.tokens ∧ t.id ∉ wasOver oldState ∧ t.ended = true := by
  simp [finishedIn]

theorem mem_wasOver {state : EngineState} {id : Nat} :
    id ∈ wasOver (some state) ↔ ∃ t ∈ state.tokens, t.id = id ∧ t.ended = true := by
  simp only [wasOver, Option.map_some, Option.getD_some, List.mem_map, List.mem_filter]
  exact ⟨fun ⟨t, ⟨ht, hover⟩, hid⟩ => ⟨t, ht, hid, hover⟩, fun ⟨t, ht, hid, hover⟩ =>
    ⟨t, ⟨ht, hover⟩, hid⟩⟩

/-- The history has one entry for each of them, in some order. -/
theorem deriveHistory_perm : (deriveHistory jsonLength oldState newState events maxBytes).Perm
    ((finishedIn oldState newState).map (historyEntry jsonLength maxBytes newState events)) := by
  have hperm := (List.perm_insertionSort HistoryEntry.notAfter
    (((finishedIn oldState newState).map
      (historyEntry jsonLength maxBytes newState events)).zipIdx)).map Prod.fst
  rw [List.zipIdx_map_fst] at hperm
  exact hperm

theorem mem_deriveHistory {entry : HistoryEntry} :
    entry ∈ deriveHistory jsonLength oldState newState events maxBytes ↔
      ∃ t ∈ finishedIn oldState newState,
        historyEntry jsonLength maxBytes newState events t = entry := by
  rw [deriveHistory_perm.mem_iff, List.mem_map]

/-- A list with distinct keys has one element of a key that occurs. -/
theorem countP_eq_one {α : Type} {l : List α} {key : α → Nat} (hnd : (l.map key).Nodup) {a : α}
    (ha : a ∈ l) : l.countP (key · = key a) = 1 := by
  have hcount := List.count_eq_one_of_mem hnd (List.mem_map_of_mem ha)
  rw [List.count, List.countP_map] at hcount
  rw [← hcount]
  exact List.countP_congr fun b _ => by simp

/-- One entry for a token that the cycle finished. -/
theorem countP_deriveHistory (hnd : (newState.tokens.map (·.id)).Nodup)
    (ht : t ∈ finishedIn oldState newState) :
    (deriveHistory jsonLength oldState newState events maxBytes).countP (·.tokenId = t.id) = 1 := by
  rw [deriveHistory_perm.countP_eq, List.countP_map]
  exact countP_eq_one (hnd.sublist (List.filter_sublist.map _)) ht

end Derive

/-! ## Runs with their histories -/

/-- One cycle of a run: a call of `execute`, and the steps that the app reports as forced. -/
structure Chapter where
  old : Option EngineState
  options : ExecuteOptions
  result : EngineResult
  forced : List StepForced

namespace Chapter

/-- The events of the cycle. -/
def events (c : Chapter) : List CycleEvent := c.result.events.map .engine ++ c.forced.map .forced

/-- The entries that the cycle adds to the history. -/
def history (jsonLength : Variables → Nat) (maxBytes : Nat) (c : Chapter) : List HistoryEntry :=
  deriveHistory jsonLength c.old c.result.newState c.events maxBytes

/-- The events report an error that the token has thrown. -/
def ReportsError (c : Chapter) (id : Nat) : Prop :=
  ∃ instanceId errorCode caught, .errorThrown instanceId id errorCode caught ∈ c.result.events

/-- The clock does not go back: neither in the course of the call nor before what the state
records. -/
def GoesForward (c : Chapter) : Prop :=
  Monotone c.options.now ∧ ∀ t ∈ givenTokens c.old, ∀ n, t.updatedAt ≤ c.options.now n

end Chapter

variable (d) in
/-- A run, cycle by cycle, with its history of steps, its last state and the next unused id. -/
inductive Chronicle : List Chapter → List Step → EngineState → Nat → Prop
  | start {fuel : Nat} {vars : Option Variables} {correlationKey businessKey : Option String}
      {options : ExecuteOptions} {result : EngineResult}
      (hok : execute d fuel (.startProcess vars correlationKey businessKey) none options =
      .ok result)
      (forced : List StepForced) :
      Chronicle [⟨none, options, result, forced⟩]
        (cycleSteps d fuel (.startProcess vars correlationKey businessKey) none options)
        result.newState result.nextId
  | next {chapters : List Chapter} {steps : List Step} {state : EngineState} {nextId : Nat}
      (h : Chronicle chapters steps state nextId) {fuel : Nat} {command : EngineCommand}
      {options : ExecuteOptions} {result : EngineResult} (hid : nextId ≤ options.firstId)
      (hok : execute d fuel command (some state) options = .ok result) (forced : List StepForced) :
      Chronicle (chapters ++ [⟨some state, options, result, forced⟩])
        (steps ++ cycleSteps d fuel command (some state) options) result.newState result.nextId

variable {chapters : List Chapter} {steps : List Step} {state : EngineState} {nextId : Nat}

theorem Chronicle.run (h : Chronicle d chapters steps state nextId) : Run d steps state nextId := by
  induction h with
  | start hok _ => exact .start hok
  | next _ hid hok _ ih => exact ih.next hid hok

/-- The history of the whole run. -/
def chronicleHistory (jsonLength : Variables → Nat) (maxBytes : Nat) (chapters : List Chapter) :
    List HistoryEntry :=
  chapters.flatMap (Chapter.history jsonLength maxBytes)

/-- The status of an entry for a token that is over and has thrown no error. -/
def HistoryStatus.ofToken : TokenStatus → Option HistoryStatus
  | .completed => some .completed
  | .cancelled => some .cancelled
  | _ => none

/-- The claim about a run: one entry for each token that is over, and none for any other; an entry
says what has become of the token, and no visit ends before it starts. -/
structure Exact (jsonLength : Variables → Nat) (maxBytes : Nat) (chapters : List Chapter)
    (state : EngineState) : Prop where
  once : ∀ t ∈ state.tokens, t.ended = true →
    (chronicleHistory jsonLength maxBytes chapters).countP (·.tokenId = t.id) = 1
  others : ∀ entry ∈ chronicleHistory jsonLength maxBytes chapters,
    ∃ t ∈ state.tokens, t.id = entry.tokenId ∧ t.ended = true
  status : ∀ c ∈ chapters, ∀ entry ∈ c.history jsonLength maxBytes, ∀ t ∈ state.tokens,
    t.id = entry.tokenId → (c.ReportsError t.id ∧ entry.status = .error) ∨
      (¬ c.ReportsError t.id ∧ HistoryStatus.ofToken t.status = some entry.status)
  times : (∀ c ∈ chapters, c.GoesForward) →
    ∀ entry ∈ chronicleHistory jsonLength maxBytes chapters, entry.startedAt ≤ entry.completedAt

/-! ## A token that is over stays over -/

variable (d) in
/-- The completion of the token leaves a cancelled parent alone. -/
def Pool.LeavesCancelled (P : Pool) (w : Token) : Prop :=
  ∀ p ∈ P.tokens, w.parentTokenId = some p.id → p.status = .cancelled → ¬ P.TouchesComplete d w p

/-- The step completes no cancelled token. -/
def Step.LeavesCancelled (d : ProcessDefinition) (st : Step) : Prop :=
  match st.action with
  | .command command => command.Completing (Pool.LeavesCancelled d) st.before.pool
  | .process t => ∀ p ∈ st.before.pool.tokens, t.parentTokenId = some p.id →
      p.status = .cancelled → ¬ st.before.pool.TouchesTurn d t.erase p

/-- What has become of a token that is over: it still is, and if `strict` holds with the same
status. -/
def Pool.StillOver (strict : Prop) (P : Pool) (x : Token) : Prop :=
  ∃ y ∈ P.tokens, y.bare = x.bare ∧ y.Finished ∧ y.id ∉ P.pending.map (·.id) ∧
    (strict → y.status = x.status)

/-- A token that is over is not cancelled again, so if it has changed, it has been completed. -/
theorem Fate.ended {R : Token → Prop} {strict : Prop} {y : Token} (h : Fate R x y)
    (hfin : x.Finished) (hsame : strict → x.status = .cancelled → y = x) :
    y.Finished ∧ (strict → y.status = x.status) := by
  rcases h.status with ⟨hs, -⟩ | ⟨-, hlive⟩ | ⟨hs, -⟩
  · exact ⟨by rw [Token.Finished, hs]; exact hfin, fun _ => hs⟩
  · rw [Token.not_live_of_finished hfin] at hlive
    cases hlive
  · refine ⟨.inl hs, fun hstrict => ?_⟩
    rcases hfin with hcompleted | hcancelled
    · exact hs.trans hcompleted.symm
    · rw [hsame hstrict hcancelled]

theorem Pool.ne_parent (hparent : w.parentTokenId ≠ some x.id) :
    ∀ p, w.parentTokenId.bind P.get? = some p → x.id ≠ p.id := by
  intro p hp hid
  obtain ⟨i, hi, hget⟩ := Option.bind_eq_some_iff.1 hp
  rw [hi, ← (Pool.get?_eq_some hget).2, hid] at hparent
  exact hparent rfl

theorem Complete.stays_cancelled (hnd : P.ids.Nodup) (hw : w ∈ P.tokens)
    (hwaiting : w.status = .waiting) (hleaves : P.LeavesCancelled d w) (hx : x ∈ P.tokens)
    (hcancelled : x.status = .cancelled) (h : Complete d P w Q origins) : x ∈ Q.tokens := by
  by_cases hparent : w.parentTokenId = some x.id
  · exact h.stays hx (hleaves x hx hparent hcancelled)
  · exact h.sparesFinished hnd hw hwaiting hx (.inr hcancelled) (Pool.ne_parent hparent)

theorem Turn.stays_cancelled (hnd : P.ids.Nodup) (ht : P.Holds t)
    (hleaves : ∀ p ∈ P.tokens, t.parentTokenId = some p.id → p.status = .cancelled →
      ¬ P.TouchesTurn d t p) (hx : x ∈ P.tokens) (hid : x.id ≠ t.id)
    (hcancelled : x.status = .cancelled) (h : Turn d P t Q origins) : x ∈ Q.tokens := by
  by_cases hparent : t.parentTokenId = some x.id
  · exact h.stays hx (hleaves x hx hparent hcancelled)
  · exact h.sparesFinished hnd ht hx (.inr hcancelled) hid (Pool.ne_parent hparent)

theorem Deed.stays_cancelled {command : EngineCommand} (hnd : P.ids.Nodup)
    (hleaves : command.Completing (Pool.LeavesCancelled d) P) (hx : x ∈ P.tokens)
    (hcancelled : x.status = .cancelled) (h : Deed d P command Q origins) : x ∈ Q.tokens := by
  have hfin : x.Finished := .inr hcancelled
  cases h with
  | startProcess _ _ _ | failUncaught _ _ _ _ | suspendInstance _ | resumeInstance _ => exact hx
  | completeServiceTask _ hw hwaiting h | completeUserTask _ _ hw hwaiting h =>
    exact h.stays_cancelled hnd hw hwaiting (hleaves _ hw rfl) hx hcancelled
  | failCaught _ hw hwaiting _ =>
    have hcancel := Pool.mem_cancelOne_of_ne hx (Pool.ne_of_waiting hnd hx hfin hw hwaiting)
    exact Pool.mem_clearHost_of_finished hcancel hfin
  | fireInterrupting hw hwaiting _ _ _ =>
    have hfinish := Pool.mem_finish_of_ne hx (Pool.ne_of_waiting hnd hx hfin hw hwaiting)
    exact Pool.mem_clearHost_of_finished hfinish hfin
  | fireBoundary hw hwaiting _ _ _ =>
    exact Pool.mem_finish_of_ne hx (Pool.ne_of_waiting hnd hx hfin hw hwaiting)
  | @fireCatch w hw hwaiting htype _ _ h =>
    have hframe := Frame.clearSiblings P w
    exact h.stays_cancelled (hframe.nodup hnd) (mem_clearSiblings_self hw) hwaiting
      (hleaves w hw rfl htype) (Pool.mem_clearSiblings_of_finished hx hfin) hcancelled
  | cancelInstance => exact Pool.mem_cancelAll_of_finished hx hfin fun h => h

theorem Commanded.stays_cancelled {command : EngineCommand} (hP : P.Coherent [])
    (hleaves : command.Completing (Pool.LeavesCancelled d) P) (hx : x ∈ P.tokens)
    (hcancelled : x.status = .cancelled) (h : Commanded d P command P') : x ∈ P'.tokens := by
  cases h with
  | deed h hmade => exact hmade.stays (h.stays_cancelled hP.nodup hleaves hx hcancelled)
  | deliverMessage _ _ h | broadcastSignal _ _ h => exact h.keeps hP hx (.inr hcancelled)

theorem Pool.StillOver.commanded {command : EngineCommand} {strict : Prop} (hP : P.Coherent [])
    (hpending : P.pending = []) (hleaves : strict → command.Completing (Pool.LeavesCancelled d) P)
    (hx : x ∈ P.tokens) (hfin : x.Finished) (h : Commanded d P command P') :
    P'.StillOver strict x := by
  obtain ⟨y, hy, hyx⟩ := Pool.holds_iff.1 (h.holds hP (Pool.holds_of_mem hx))
  have hid : y.id = x.id := Token.id_of_bare hyx
  have hlt : y.id < P.nextId := hid ▸ hP.numbered x hx
  obtain ⟨z, hz, hzy⟩ := h.fates hP hy hlt
  obtain rfl := Pool.eq_of_id hP.nodup hz hx ((Token.id_of_bare hzy.bare).trans hid)
  have hnd := (h.coherent hP).nodup
  obtain ⟨hover, hsame⟩ := hzy.ended hfin fun hstrict hcancelled =>
    Pool.eq_of_id hnd hy (h.stays_cancelled hP (hleaves hstrict) hx hcancelled) hid
  refine ⟨y, hy, hyx, hover, fun hmem => ?_, hsame⟩
  obtain ⟨v, hv, hvy⟩ := List.mem_map.1 hmem
  rcases (Pool.Grows.commanded hP (le_refl _) h).pending v hv with hold | hle
  · rw [hpending] at hold
    cases hold
  · omega

theorem Pool.StillOver.turned {strict : Prop} (hP : P.Coherent [t])
    (hleaves : strict → ∀ p ∈ P.tokens, t.parentTokenId = some p.id → p.status = .cancelled →
      ¬ P.TouchesTurn d t p) (hx : (P.push t).StillOver strict x) (h : Turned d P t P') :
    P'.StillOver strict x := by
  obtain ⟨y, hy, hyx, hfin, hnot, hstatus⟩ := hx
  obtain ⟨Q, origins, hturn, hmade⟩ := h
  have ht := hP.holds List.mem_cons_self
  have hframe := hturn.frame hP.nodup ht
  rw [Pool.push, List.map_cons, List.mem_cons, not_or] at hnot
  obtain ⟨z, hz, hzy⟩ := hframe.exists_mem hy
  have hid : z.id = y.id := Token.id_of_bare hzy
  obtain ⟨v, hv, hvz⟩ := hturn.fates hP.nodup ht hz (hid ▸ hnot.1)
  obtain rfl := Pool.eq_of_id hP.nodup hv hy ((Token.id_of_bare hvz.bare).trans hid)
  obtain ⟨hover, hsame⟩ := hvz.ended hfin fun hstrict hcancelled =>
    Pool.eq_of_id (hframe.nodup hP.nodup) hz
      (hturn.stays_cancelled hP.nodup ht (hleaves hstrict) hy hnot.1 hcancelled) hid
  refine ⟨z, hmade.stays hz, hzy.trans hyx, hover, ?_, fun hstrict =>
    (hsame hstrict).trans (hstatus hstrict)⟩
  apply hmade.notPending ((hturn.ready hP).coherent.numbered z hz)
  rw [hframe.pending, hid]
  exact hnot.2

/-- A token that is over before a call is over after it.  If no step completes a cancelled token,
its status is the same. -/
theorem Call.stillOver {s : Prop} {fuel : Nat} {command : EngineCommand}
    {state : Option EngineState} {options : ExecuteOptions} {result : EngineResult}
    (call : Call d steps command state options)
    (hok : execute d fuel command state options = .ok result)
    (hleaves : s → ∀ st ∈ cycleSteps d fuel command state options, st.LeavesCancelled d)
    (hx : x ∈ givenTokens state) (hover : x.ended = true) :
    ∃ y ∈ result.newState.tokens, y.id = x.id ∧ y.ended = true ∧ (s → y.status = x.status) := by
  obtain ⟨-, htokens⟩ := call.trace
  have hmem : x.erase ∈ (ExecutionContext.create state options).pool.tokens := by
    refine ExecutionContext.mem_pool _ ?_
    rw [htokens]
    exact hx
  obtain ⟨ctx, inst, ⟨y, hy, hyx, hfin, -, hsame⟩, hstate, -⟩ :=
    call.maintains (I := fun P => P.StillOver s x.erase)
      (C := fun st => s → st.LeavesCancelled d) hok (fun st hst hstrict => hleaves hstrict st hst)
      (fun _ hst hcoh hcmd => .commanded hcoh rfl hst hmem (Token.ended_iff.1 hover) hcmd)
      fun before t _ hst hhand hI hturned =>
        Pool.StillOver.turned (P := before.pool) hhand hst hI hturned
  obtain ⟨z, hz, rfl⟩ := List.mem_map.1 hy
  have hid : z.erase.id = x.erase.id := Token.id_of_bare hyx
  exact ⟨z, hstate ▸ hz, hid, Token.ended_iff.2 hfin, hsame⟩

/-! ## The clock -/

section Clock

variable {ctx ctx' : ExecutionContext} {fuel : Nat} {command : EngineCommand}
  {options : ExecuteOptions} {result : EngineResult}

/-- A call of which only the clock is considered. -/
abbrev clockOnly : Assumed := ⟨False, True, True⟩

theorem handleStartProcess_timed {vars : Option Variables}
    {correlationKey businessKey : Option String} (h : ctx.Timed) (hqueue : ctx.pendingQueue = [])
    (hok : handleStartProcess d ctx vars correlationKey businessKey = .ok ctx') :
    Queued clockOnly ctx' := by
  unfold handleStartProcess at hok
  obtain ⟨element, -, hok⟩ := Except.bind_eq_ok_iff.1 hok
  have hstarted : ((((ctx.now.2.newId.2.newId.2.saveScope
      { id := ctx.now.2.newId.2.newId.1, vars := vars.getD ∅ }).setInstance
      { id := ctx.now.2.newId.1, definitionId := d.id, definitionVersion := d.version,
        status := .active, rootScopeId := ctx.now.2.newId.2.newId.1, startedAt := ctx.now.1,
        correlationKey, businessKey }).emit
      (.processInstanceStarted ctx.now.2.newId.1 d.id d.version))).Timed :=
    ⟨h.now.clock, h.now.tokens⟩
  have hcreated := hstarted.createToken ctx.now.2.newId.1 element.id element.type
    ctx.now.2.newId.2.newId.1 none none none
  have hgrants : Assumed.Grants clockOnly ctx' := by
    rw [← Except.ok.inj hok]
    exact ⟨False.elim, fun _ => ⟨hcreated.clock, hcreated.tokens⟩⟩
  refine ⟨hgrants, fun t ht => (hgrants.of_mem ?_).toVouches⟩
  rw [← Except.ok.inj hok] at ht ⊢
  rcases List.mem_append.1 ht with ht | ht
  · have ht : t ∈ ctx.pendingQueue := ht
    rw [hqueue] at ht
    cases ht
  · rw [List.mem_singleton.1 ht]
    exact mem_createToken

theorem handleCommand_timed (h : ctx.Timed) (hqueue : ctx.pendingQueue = [])
    (hok : handleCommand d ctx command = .ok ctx') : Queued clockOnly ctx' := by
  by_cases hgoes : command.goesOn = true
  · have hgrants : Assumed.Grants clockOnly ctx := ⟨False.elim, fun _ => h⟩
    refine (handleCommand_effects hgoes hgrants hok).queued ⟨hgrants, fun t ht => ?_⟩
    rw [hqueue] at ht
    cases ht
  · cases command with
    | startProcess _ _ _ => exact handleStartProcess_timed h hqueue hok
    | _ => exact absurd rfl hgoes

/-- If the clock does not go back, no token ends before it starts. -/
theorem execute_times {state : Option EngineState} (hclock : Monotone options.now)
    (hold : ∀ t ∈ givenTokens state, t.createdAt ≤ t.updatedAt ∧ ∀ n, t.updatedAt ≤ options.now n)
    (hok : execute d fuel command state options = .ok result) :
    ∀ t ∈ result.newState.tokens, t.createdAt ≤ t.updatedAt := by
  unfold execute at hok
  obtain ⟨mid, hmid, hok⟩ := Except.bind_eq_ok_iff.1 hok
  obtain ⟨ctx, hctx, hok⟩ := Except.bind_eq_ok_iff.1 hok
  unfold ExecutionContext.toResult at hok
  obtain ⟨inst, -, hok⟩ := Except.bind_eq_ok_iff.1 hok
  have hcreate : (ExecutionContext.create state options).Timed := by
    refine ⟨hclock, fun t ht => ?_⟩
    obtain ⟨hle, hlater⟩ := hold t (KeyedMap.mem_of_mem_ofList ht)
    exact ⟨hle, fun n _ => hlater n⟩
  have hqueued := handleCommand_timed hcreate rfl hmid
  have htimed := ((runLoop_effects trivial hqueued hctx).queued hqueued).timed trivial
  rw [← Except.ok.inj hok]
  exact fun t ht => (htimed.tokens t ht).1

end Clock

/-! ## The whole run -/

section Runs

variable {jsonLength : Variables → Nat} {maxBytes : Nat} {fuel : Nat} {command : EngineCommand}
  {options : ExecuteOptions} {result : EngineResult}

theorem Run.tokens_nodup (run : Run d steps state nextId) : (state.tokens.map (·.id)).Nodup := by
  obtain ⟨ctx, inst, -, -, -, rfl, -⟩ := run.trace
  exact ctx.tokenMap.nodup

theorem mem_threwError {c : Chapter} {id : Nat} : id ∈ threwError c.events ↔ c.ReportsError id := by
  unfold threwError Chapter.events Chapter.ReportsError
  rw [List.mem_filterMap]
  constructor
  · rintro ⟨event, hevent, hid⟩
    rcases List.mem_append.1 hevent with hevent | hevent
    · obtain ⟨e, he, rfl⟩ := List.mem_map.1 hevent
      cases e <;> cases hid
      exact ⟨_, _, _, he⟩
    · obtain ⟨e, -, rfl⟩ := List.mem_map.1 hevent
      cases hid
  · rintro ⟨instanceId, errorCode, caught, he⟩
    exact ⟨_, List.mem_append_left _ (List.mem_map_of_mem he), rfl⟩

/-- The entry of a token that has just finished says what has become of it. -/
theorem historyStatus_spec {c : Chapter} (hover : t.ended = true) :
    (c.ReportsError t.id ∧ historyStatus c.events t = .error) ∨
      (¬ c.ReportsError t.id ∧
        HistoryStatus.ofToken t.status = some (historyStatus c.events t)) := by
  unfold historyStatus
  by_cases hthrew : t.id ∈ threwError c.events
  · exact .inl ⟨mem_threwError.1 hthrew, if_pos hthrew⟩
  · refine .inr ⟨fun h => hthrew (mem_threwError.2 h), ?_⟩
    rw [if_neg hthrew]
    rcases Token.ended_iff.1 hover with hs | hs <;> simp [hs, HistoryStatus.ofToken]

theorem mem_chapterHistory {c : Chapter} {entry : HistoryEntry} :
    entry ∈ c.history jsonLength maxBytes ↔ ∃ t ∈ finishedIn c.old c.result.newState,
      historyEntry jsonLength maxBytes c.result.newState c.events t = entry :=
  mem_deriveHistory

theorem chronicleHistory_concat (chapters : List Chapter) (c : Chapter) :
    chronicleHistory jsonLength maxBytes (chapters ++ [c]) =
      chronicleHistory jsonLength maxBytes chapters ++ c.history jsonLength maxBytes := by
  simp [chronicleHistory]

/-- In every run, an entry is about a token that is over. -/
theorem Chronicle.others (h : Chronicle d chapters steps state nextId) :
    ∀ entry ∈ chronicleHistory jsonLength maxBytes chapters,
      ∃ t ∈ state.tokens, t.id = entry.tokenId ∧ t.ended = true := by
  have hlast : ∀ (c : Chapter), ∀ entry ∈ c.history jsonLength maxBytes,
      ∃ t ∈ c.result.newState.tokens, t.id = entry.tokenId ∧ t.ended = true := by
    intro c entry hentry
    obtain ⟨t, ht, rfl⟩ := mem_chapterHistory.1 hentry
    obtain ⟨hmem, -, hover⟩ := mem_finishedIn.1 ht
    exact ⟨t, hmem, rfl, hover⟩
  induction h with
  | @start _ _ _ _ options result _ forced =>
    intro entry hentry
    rw [chronicleHistory, List.flatMap_singleton] at hentry
    exact hlast ⟨none, options, result, forced⟩ entry hentry
  | @next _ _ state _ h _ command options result hid hok forced ih =>
    intro entry hentry
    rw [chronicleHistory_concat, List.mem_append] at hentry
    rcases hentry with hentry | hentry
    · obtain ⟨t, ht, htid, hover⟩ := ih entry hentry
      obtain ⟨y, hy, hyt, hyover, -⟩ := (Call.next h.run command hid).stillOver (s := False) hok
        False.elim ht hover
      exact ⟨y, hy, hyt.trans htid, hyover⟩
    · exact hlast ⟨some state, options, result, forced⟩ entry hentry

/-- In every run, a token that is over has exactly one entry. -/
theorem Chronicle.once (h : Chronicle d chapters steps state nextId) (ht : t ∈ state.tokens)
    (hover : t.ended = true) :
    (chronicleHistory jsonLength maxBytes chapters).countP (·.tokenId = t.id) = 1 := by
  induction h generalizing t with
  | @start _ _ _ _ options result hok forced =>
    rw [chronicleHistory, List.flatMap_singleton]
    exact countP_deriveHistory (Run.start hok).tokens_nodup
      (mem_finishedIn.2 ⟨ht, List.not_mem_nil, hover⟩)
  | @next chapters _ state _ h _ command options result hid hok forced ih =>
    have hrun := h.run.next hid hok
    rw [chronicleHistory_concat, List.countP_append]
    by_cases hold : t.id ∈ wasOver (some state)
    · -- it was over before, and has its entry
      obtain ⟨x, hx, hxt, hxover⟩ := mem_wasOver.1 hold
      have hone := ih hx hxover
      rw [hxt] at hone
      rw [hone]
      have hnone : (Chapter.history jsonLength maxBytes
          ⟨some state, options, result, forced⟩).countP (·.tokenId = t.id) = 0 := by
        rw [List.countP_eq_zero]
        intro entry hentry hid
        obtain ⟨y, hy, rfl⟩ := mem_chapterHistory.1 hentry
        have hnot := (mem_finishedIn.1 hy).2.1
        have hid : y.id = t.id := of_decide_eq_true hid
        rw [hid] at hnot
        exact hnot hold
      omega
    · -- it has come to its end in this cycle
      have hnone : (chronicleHistory jsonLength maxBytes chapters).countP (·.tokenId = t.id) =
          0 := by
        rw [List.countP_eq_zero]
        intro entry hentry hid
        obtain ⟨x, hx, hxid, hxover⟩ := h.others entry hentry
        exact hold (mem_wasOver.2 ⟨x, hx, hxid.trans (of_decide_eq_true hid), hxover⟩)
      rw [hnone, Nat.zero_add]
      exact countP_deriveHistory hrun.tokens_nodup (mem_finishedIn.2 ⟨ht, hold, hover⟩)

/-- If no step completes a cancelled token, the entries say what has become of the tokens. -/
theorem Chronicle.status (h : Chronicle d chapters steps state nextId)
    (hleaves : ∀ st ∈ steps, st.LeavesCancelled d) {c : Chapter} (hc : c ∈ chapters)
    {entry : HistoryEntry} (hentry : entry ∈ c.history jsonLength maxBytes) (ht : t ∈ state.tokens)
    (hid : t.id = entry.tokenId) :
    (c.ReportsError t.id ∧ entry.status = .error) ∨
      (¬ c.ReportsError t.id ∧ HistoryStatus.ofToken t.status = some entry.status) := by
  -- the chapter that ends with the state
  have hlast : ∀ {c : Chapter} {entry : HistoryEntry}, entry ∈ c.history jsonLength maxBytes →
      (c.result.newState.tokens.map (·.id)).Nodup → ∀ {t : Token}, t ∈ c.result.newState.tokens →
      t.id = entry.tokenId → (c.ReportsError t.id ∧ entry.status = .error) ∨
        (¬ c.ReportsError t.id ∧ HistoryStatus.ofToken t.status = some entry.status) := by
    intro c entry hentry hnd t ht hid
    obtain ⟨y, hy, rfl⟩ := mem_chapterHistory.1 hentry
    obtain ⟨hmem, -, hover⟩ := mem_finishedIn.1 hy
    obtain rfl : t = y := List.inj_on_of_nodup_map hnd ht hmem hid
    exact historyStatus_spec hover
  induction h generalizing t with
  | @start _ _ _ _ options result hok forced =>
    obtain rfl := List.mem_singleton.1 hc
    exact hlast hentry (Run.start hok).tokens_nodup ht hid
  | @next chapters steps state _ h _ command options result hnext hok forced ih =>
    have hnd := (h.run.next hnext hok).tokens_nodup
    rcases List.mem_append.1 hc with hc | hc
    · have hold : entry ∈ chronicleHistory jsonLength maxBytes chapters :=
        List.mem_flatMap.2 ⟨c, hc, hentry⟩
      obtain ⟨x, hx, hxid, hxover⟩ := h.others entry hold
      obtain ⟨y, hy, hyx, -, hsame⟩ := (Call.next h.run command hnext).stillOver (s := True) hok
        (fun _ st hst => hleaves st (List.mem_append_right _ hst)) hx hxover
      obtain rfl : t = y :=
        List.inj_on_of_nodup_map hnd ht hy (hid.trans (hxid.symm.trans hyx.symm))
      rw [hyx, hsame trivial]
      exact ih (fun st hst => hleaves st (List.mem_append_left _ hst)) hc hx hxid
    · obtain rfl := List.mem_singleton.1 hc
      exact hlast hentry hnd ht hid

/-- If the clock does not go back, the times of the tokens are in order in every state of the
run. -/
theorem Chronicle.tokens_times (h : Chronicle d chapters steps state nextId)
    (hclock : ∀ c ∈ chapters, c.GoesForward) : ∀ t ∈ state.tokens, t.createdAt ≤ t.updatedAt := by
  induction h with
  | start hok forced =>
    exact execute_times (hclock _ (List.mem_singleton_self _)).1 (fun t ht => by cases ht) hok
  | @next _ _ state _ h _ command options result hid hok forced ih =>
    obtain ⟨hmono, hlater⟩ := hclock ⟨some state, options, result, forced⟩
      (List.mem_append_right _ (List.mem_singleton_self _))
    have hold : ∀ t ∈ givenTokens (some state), t.createdAt ≤ t.updatedAt :=
      ih fun c hc => hclock c (List.mem_append_left _ hc)
    exact execute_times hmono (fun t ht => ⟨hold t ht, hlater t ht⟩) hok

theorem Chronicle.times (h : Chronicle d chapters steps state nextId)
    (hclock : ∀ c ∈ chapters, c.GoesForward) {entry : HistoryEntry}
    (hentry : entry ∈ chronicleHistory jsonLength maxBytes chapters) :
    entry.startedAt ≤ entry.completedAt := by
  have hlast : ∀ {c : Chapter}, (∀ t ∈ c.result.newState.tokens, t.createdAt ≤ t.updatedAt) →
      entry ∈ c.history jsonLength maxBytes → entry.startedAt ≤ entry.completedAt := by
    intro c htimes hentry
    obtain ⟨y, hy, rfl⟩ := mem_chapterHistory.1 hentry
    exact htimes y (mem_finishedIn.1 hy).1
  induction h with
  | @start _ _ _ _ options result hok forced =>
    have htimes := (Chronicle.start hok forced).tokens_times hclock
    rw [chronicleHistory, List.flatMap_singleton] at hentry
    exact hlast (c := ⟨none, options, result, forced⟩) htimes hentry
  | @next _ _ state _ h _ command options result hid hok forced ih =>
    have htimes := (h.next hid hok forced).tokens_times hclock
    rw [chronicleHistory_concat, List.mem_append] at hentry
    rcases hentry with hentry | hentry
    · exact ih (fun c hc => hclock c (List.mem_append_left _ hc)) hentry
    · exact hlast (c := ⟨some state, options, result, forced⟩) htimes hentry

/-- In a run none of whose steps completes a cancelled token, the history is exact. -/
theorem exact_of_leavesCancelled (h : Chronicle d chapters steps state nextId)
    (hleaves : ∀ st ∈ steps, st.LeavesCancelled d) : Exact jsonLength maxBytes chapters state where
  once _ ht hover := h.once ht hover
  others := h.others
  status _ hc _ hentry _ ht hid := h.status hleaves hc hentry ht hid
  times hclock _ hentry := h.times hclock hentry

end Runs

/-! ## A cancelled transaction in which the last child completes its parent -/

instance (P : Pool) (w : Token) : Decidable (P.LeavesCancelled d w) := by
  unfold Pool.LeavesCancelled
  infer_instance

instance (st : Step) : Decidable (st.LeavesCancelled d) := by
  unfold Step.LeavesCancelled
  rcases st.action with _ | _ <;> infer_instance

/-- A run on given commands, cycle by cycle. -/
structure Told where
  chapters : List Chapter
  run : Replay

/-- One more cycle, in which no step is forced. -/
def tellOne (d : ProcessDefinition) (evaluate : String → Variables → Except EngineError Value)
    (fuel : Nat) (told : Told) (command : EngineCommand) : Except EngineError Told := do
  let options := stopped evaluate told.run.nextId
  let result ← execute d fuel command (some told.run.state) options
  .ok { chapters := told.chapters ++ [⟨some told.run.state, options, result, []⟩]
        run :=
          { steps := told.run.steps ++ cycleSteps d fuel command (some told.run.state) options
            state := result.newState
            nextId := result.nextId } }

def tell (d : ProcessDefinition) (evaluate : String → Variables → Except EngineError Value)
    (fuel : Nat) (commands : List EngineCommand) : Except EngineError Told := do
  let options := stopped evaluate 0
  let result ← execute d fuel (.startProcess none none none) none options
  commands.foldlM (tellOne d evaluate fuel)
    { chapters := [⟨none, options, result, []⟩]
      run :=
        { steps := cycleSteps d fuel (.startProcess none none none) none options
          state := result.newState
          nextId := result.nextId } }

theorem foldlM_tellOne_chronicle {evaluate : String → Variables → Except EngineError Value}
    {fuel : Nat} {told told' : Told} {commands : List EngineCommand}
    (h : Chronicle d told.chapters told.run.steps told.run.state told.run.nextId)
    (hok : commands.foldlM (tellOne d evaluate fuel) told = .ok told') :
    Chronicle d told'.chapters told'.run.steps told'.run.state told'.run.nextId := by
  induction commands generalizing told with
  | nil =>
    rw [List.foldlM_nil, Except.pure_eq_ok_iff] at hok
    exact hok ▸ h
  | cons command commands ih =>
    obtain ⟨mid, hmid, hok⟩ := Except.foldlM_cons_eq_ok_iff.1 hok
    obtain ⟨result, hresult, hmid⟩ := Except.bind_eq_ok_iff.1 hmid
    refine ih ?_ hok
    rw [← Except.ok.inj hmid]
    exact h.next (le_refl _) hresult []

/-- A run on which a test succeeds. -/
theorem exists_chronicle_of_tell (d : ProcessDefinition)
    (evaluate : String → Variables → Except EngineError Value) (fuel : Nat)
    (commands : List EngineCommand) (test : Told → Bool)
    (h : (tell d evaluate fuel commands).toOption.any test = true) :
    ∃ told : Told, Chronicle d told.chapters told.run.steps told.run.state told.run.nextId ∧
      test told = true := by
  cases htold : tell d evaluate fuel commands with
  | error e => simp [htold, Except.toOption] at h
  | ok told =>
    rw [htold] at h
    obtain ⟨result, hresult, htold⟩ := Except.bind_eq_ok_iff.1 htold
    exact ⟨told, foldlM_tellOne_chronicle (.start hresult []) htold, h⟩

open Diagram

/-- Both user tasks are completed, one after the other. -/
theorem exact_interview : ∃ told : Told, told.chapters.length = 3 ∧
    Exact (fun _ => 0) maxSnapshotBytes told.chapters told.run.state := by
  obtain ⟨told, hchronicle, htest⟩ := exists_chronicle_of_tell interview always 10
    [.completeUserTask 3 "user" none, .completeUserTask 4 "user" none]
    (fun told => told.chapters.length = 3 ∧ ∀ st ∈ told.run.steps, st.LeavesCancelled interview)
    (by decide +kernel)
  obtain ⟨hlength, hleaves⟩ := of_decide_eq_true htest
  exact ⟨told, hlength, exact_of_leavesCancelled hchronicle hleaves⟩

/-- Token 8 is cancelled with the transaction, which is what the history says, and completed by the
last of its children. -/
theorem not_exact_cancelledLoop : ∃ told : Told,
    Chronicle cancelledLoop told.chapters told.run.steps told.run.state told.run.nextId ∧
    (∃ c ∈ told.chapters, ∃ entry ∈ c.history (fun _ => 0) maxSnapshotBytes,
      entry.tokenId = 8 ∧ entry.status = .cancelled) ∧
    (∃ t ∈ told.run.state.tokens, t.id = 8 ∧ t.status = .completed) ∧
    ¬ Exact (fun _ => 0) maxSnapshotBytes told.chapters told.run.state := by
  obtain ⟨told, hchronicle, htest⟩ := exists_chronicle_of_tell cancelledLoop twoItems 20
    [.completeUserTask 11 "" none, .completeUserTask 13 "" none]
    (fun told => (∃ c ∈ told.chapters, ∃ entry ∈ c.history (fun _ => 0) maxSnapshotBytes,
      entry.tokenId = 8 ∧ entry.status = .cancelled) ∧
      ∃ t ∈ told.run.state.tokens, t.id = 8 ∧ t.status = .completed) (by decide +kernel)
  obtain ⟨hentry, htoken⟩ := of_decide_eq_true htest
  refine ⟨told, hchronicle, hentry, htoken, fun hexact => ?_⟩
  obtain ⟨c, hc, entry, hentry, hid, hcancelled⟩ := hentry
  obtain ⟨t, ht, htid, hcompleted⟩ := htoken
  rcases hexact.status c hc entry hentry t ht (htid.trans hid.symm) with ⟨-, herror⟩ | ⟨-, hsame⟩
  · rw [hcancelled] at herror
    cases herror
  · rw [hcompleted, hcancelled] at hsame
    cases hsame

end NexusWorkflow
