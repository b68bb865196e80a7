import NexusWorkflow.Run.Run

/-!
# Compensation records

A record is filed in one place only: when a command completes the token of the activity.  From then
on the token neither waits nor is on its way, so it is never filed again.
-/

namespace NexusWorkflow

variable {d : ProcessDefinition} {P Q P' : Pool} {origins : List Origin}

/-! ## What the rules do to the records -/

theorem SubEnd.records {s : String} (h : SubEnd d s P Q origins) : Q.records = P.records := by
  cases h <;> rfl

theorem FireCancel.records {s : String} {outer : Token} (h : FireCancel d s outer P Q origins) :
    Q.records = P.records := by
  cases h <;> rfl

theorem TxCancel.records {s : String} {t : Token} (h : TxCancel d s t P Q origins) :
    Q.records = [] := by
  cases h with
  | compensate _ | orphan _ _ => rfl
  | fire _ _ hfire => exact hfire.records

theorem Ends.records {t : Token} {e : EventElement} (h : Ends d t P e Q origins) :
    Q.records = P.records ∨ Q.records = [] := by
  cases h with
  | cancelTop _ _ | terminate _ | last _ _ _ _ _ | more _ _ _ _ => exact .inl rfl
  | cancel _ _ h => exact .inr h.records
  | inner _ _ _ h => exact .inl h.records

theorem ChildDone.records {c : Token} {e : BpmnFlowElement} {lc : MultiInstanceLoopCharacteristics}
    (h : ChildDone c e lc P Q origins) : Q.records = P.records := by
  cases h <;> rfl

theorem HandlerDone.records {w throwToken : Token} (h : HandlerDone d w throwToken P Q origins) :
    Q.records = P.records := by
  cases h with
  | wait _ | orphan _ _ _ _ _ | advance _ _ _ => rfl
  | fire _ _ _ _ _ hfire => exact hfire.records

theorem spared_sublist (records : List CompensationRecord) (target : Option String) :
    (spared records target).Sublist records := by
  cases target with
  | none => exact List.nil_sublist _
  | some _ => exact List.filter_sublist

/-- A turn only takes records out. -/
theorem Turn.records {t : Token} (h : Turn d P t Q origins) : Q.records.Sublist P.records := by
  cases h with
  | pass _ _ _ | branch _ _ _ => exact .refl _
  | park _ h =>
    cases h with
    | throwEvent _ _ _ => exact spared_sublist _ _
    | _ => exact .refl _
  | ends _ h =>
    rcases h.records with hr | hr <;> rw [hr]
    · exact .refl _
    · exact List.nil_sublist _
  | child _ _ _ h => exact h.records ▸ .refl _

/-- A command takes no record out; it files at most one, for a token that waits no longer. -/
theorem Complete.records {w : Token} (h : Complete d P w Q origins) :
    Q.records = P.records ∨ ∃ r : CompensationRecord, r.tokenId = w.id ∧
      Q.records = P.records ++ [r] ∧ ∀ y ∈ Q.tokens, y.status = .waiting → y.id ≠ w.id := by
  cases h with
  | child _ _ h => exact .inl h.records
  | handler _ _ h => exact .inl h.records
  | plain _ _ hrecords =>
    cases hrecords with
    | none _ => exact .inl rfl
    | @file r _ _ htoken =>
      refine .inr ⟨r, htoken, rfl, fun y hy hw => ?_⟩
      rcases Pool.mem_put hy with rfl | ⟨-, hne⟩
      · cases hw
      · exact hne

theorem Pool.records_clearSiblings (P : Pool) (w : Token) :
    (P.clearSiblings w).records = P.records := by
  unfold Pool.clearSiblings
  split <;> rfl

theorem Deed.records {command : EngineCommand} (h : Deed d P command Q origins) :
    Q.records = P.records ∨ ∃ w ∈ P.tokens, w.status = .waiting ∧ ∃ r : CompensationRecord,
      r.tokenId = w.id ∧ Q.records = P.records ++ [r] ∧
        ∀ y ∈ Q.tokens, y.status = .waiting → y.id ≠ w.id := by
  cases h with
  | startProcess _ _ _ | failCaught _ _ _ _ | failUncaught _ _ _ _ | fireInterrupting _ _ _ _ _
  | fireBoundary _ _ _ _ _ | suspendInstance _ | resumeInstance _ | cancelInstance => exact .inl rfl
  | @completeServiceTask _ w hw hwaiting _ _ h =>
    exact h.records.imp_right fun hr => ⟨w, hw, hwaiting, hr⟩
  | @completeUserTask _ _ w hw hwaiting _ _ h =>
    exact h.records.imp_right fun hr => ⟨w, hw, hwaiting, hr⟩
  | @fireCatch w hw hwaiting _ _ _ h =>
    have hr := h.records
    rw [Pool.records_clearSiblings] at hr
    exact hr.imp_right fun hr => ⟨w, hw, hwaiting, hr⟩

theorem Resumes.records {targets : List Token} (h : Resumes d targets P P') :
    P'.records = P.records := by
  induction h with
  | nil _ => rfl
  | skip _ _ _ ih => exact ih
  | resume _ _ hresume hmade _ ih =>
    obtain ⟨-⟩ := hresume
    obtain ⟨news, n, -, -, rfl⟩ := hmade
    exact ih.trans (Pool.records_clearSiblings _ _)

/-! ## The law of filing -/

/-- Every record is that of one token, which is at rest, and a record that is not among the old ones
is that of another token than theirs. -/
structure Pool.Filed (old : List CompensationRecord) (P : Pool) : Prop where
  once : (P.records.map (·.tokenId)).Nodup
  known : ∀ r ∈ P.records, r.tokenId < P.nextId
  notPending : ∀ r ∈ P.records, r.tokenId ∉ P.pending.map (·.id)
  notWaiting : ∀ r ∈ P.records, ∀ x ∈ P.tokens, x.status = .waiting → x.id ≠ r.tokenId
  new : ∀ r ∈ P.records, r ∈ old ∨ ∀ r' ∈ old, r'.tokenId ≠ r.tokenId

namespace Pool.Filed

variable {old : List CompensationRecord}

theorem of_sublist (h : P.Filed old) (hrecords : Q.records.Sublist P.records)
    (hpending : Q.pending = P.pending) (hnext : Q.nextId = P.nextId)
    (hwaiting : ∀ r ∈ Q.records, ∀ y ∈ Q.tokens, y.status = .waiting → y.id ≠ r.tokenId) :
    Q.Filed old where
  once := h.once.sublist (hrecords.map _)
  known r hr := hnext ▸ h.known r (hrecords.subset hr)
  notPending r hr := hpending ▸ h.notPending r (hrecords.subset hr)
  notWaiting := hwaiting
  new r hr := h.new r (hrecords.subset hr)

theorem still (h : P.Filed old) (hf : Frame P Q) (hrecords : Q.records.Sublist P.records)
    (hstill : StillWaiting P Q) : Q.Filed old := by
  refine h.of_sublist hrecords hf.pending hf.nextId fun r hr y hy hw => ?_
  obtain ⟨x, hx, hxw, hbare, -⟩ := hstill y hy hw
  rw [← Token.id_of_bare hbare]
  exact h.notWaiting r (hrecords.subset hr) x hx hxw

theorem spawned {α : Type} {R : α → Token → Prop} {items : List α} (h : Q.Filed old)
    (hmade : Spawned R items Q P') : P'.Filed old := by
  obtain ⟨news, n, -, hfresh, rfl⟩ := hmade
  have hnew : ∀ r ∈ Q.records, ∀ t ∈ news, t.id ≠ r.tokenId := by
    intro r hr t ht
    have := h.known r hr
    have := hfresh.ge t ht
    omega
  refine ⟨h.once, fun r hr => (h.known r hr).trans_le hfresh.le, fun r hr hm => ?_,
    fun r hr x hx hw => ?_, h.new⟩
  · rw [show (Q.spawn news n).pending = Q.pending ++ news from rfl, List.map_append,
      List.mem_append] at hm
    rcases hm with hm | hm
    · exact h.notPending r hr hm
    · obtain ⟨t, ht, hid⟩ := List.mem_map.1 hm
      exact hnew r hr t ht hid
  · rcases List.mem_append.1 hx with hx | hx
    · exact h.notWaiting r hr x hx hw
    · exact hnew r hr x hx

theorem turned {t : Token} (hP : P.Coherent [t]) (h : (P.push t).Filed old)
    (hturned : Turned d P t P') : P'.Filed old := by
  obtain ⟨Q, origins, hturn, hmade⟩ := hturned
  refine spawned (h := ?_) hmade
  have hf := hturn.frame hP.nodup (hP.holds List.mem_cons_self)
  have hP' : P.Filed old := ⟨h.once, h.known,
    fun r hr hm => h.notPending r hr (List.mem_cons_of_mem _ hm), h.notWaiting, h.new⟩
  refine hP'.of_sublist hturn.records hf.pending hf.nextId fun r hr y hy hw => ?_
  rcases hturn.waiting hy hw with ⟨x, hx, hxw, hbare, -⟩ | ⟨_, _, _, _, -, -, rfl⟩
  · rw [← Token.id_of_bare hbare]
    exact h.notWaiting r (hturn.records.subset hr) x hx hxw
  · intro hid
    exact h.notPending r (hturn.records.subset hr) (hid ▸ List.mem_cons_self)

theorem resumes {targets : List Token} (hP : P.Coherent []) (h : P.Filed old)
    (hres : Resumes d targets P P') : P'.Filed old := by
  induction hres with
  | nil _ => exact h
  | skip _ _ _ ih => exact ih hP h
  | @resume w _ _ _ hw hwaiting _ _ _ hresume hmade _ ih =>
    have hmid := (hresume.ready hP hw hwaiting).spawned hmade
    refine ih hmid (spawned (h := ?_) hmade)
    have hrecords : _ = _ := Resumes.records (.resume hw hwaiting hresume hmade (.nil _))
    obtain ⟨news, n, -, -, rfl⟩ := hmade
    refine h.still (hresume.frame hP.nodup (holds_of_mem hw)) ?_ hresume.stillWaiting
    rw [← hrecords]
    exact .refl _

/-- A command, on a pool at rest: what is filed is not filed already. -/
theorem commanded {command : EngineCommand} (hP : P.Coherent []) (hpending : P.pending = [])
    (h : P.Filed P.records) (hcmd : Commanded d P command P') : P'.Filed P.records := by
  cases hcmd with
  | deed hdeed hmade =>
    refine spawned (h := ?_) hmade
    have hf := hdeed.frame hP.nodup
    rcases hdeed.records with hr | ⟨w, hw, hwaiting, r, hid, hr, hrest⟩
    · exact h.still hf (hr ▸ .refl _) hdeed.stillWaiting
    · have hother : ∀ r' ∈ P.records, r'.tokenId ≠ r.tokenId := fun r' hr' heq =>
        h.notWaiting r' hr' w hw hwaiting (hid.symm.trans heq.symm)
      constructor
      · rw [hr, List.map_append, List.nodup_append]
        refine ⟨h.once, List.nodup_singleton _, ?_⟩
        rintro _ ha _ hb rfl
        obtain ⟨r', hr', heq⟩ := List.mem_map.1 ha
        exact hother r' hr' (heq.trans (List.mem_singleton.1 hb))
      all_goals
        intro r' hr'
        rw [hr, List.mem_append, List.mem_singleton] at hr'
      · rw [hf.nextId]
        rcases hr' with hr' | rfl
        · exact h.known r' hr'
        · exact hid ▸ hP.numbered w hw
      · rw [hf.pending, hpending]
        simp
      · intro y hy hyw
        rcases hr' with hr' | rfl
        · obtain ⟨x, hx, hxw, hbare, -⟩ := hdeed.stillWaiting y hy hyw
          rw [← Token.id_of_bare hbare]
          exact h.notWaiting r' hr' x hx hxw
        · rw [hid]
          exact hrest y hy hyw
      · rcases hr' with hr' | rfl
        · exact .inl hr'
        · exact .inr hother
  | deliverMessage _ _ hres | broadcastSignal _ _ hres => exact h.resumes hP hres

/-- Whatever is there may be taken for old. -/
theorem renew (h : P.Filed old) : P.Filed P.records :=
  ⟨h.once, h.known, h.notPending, h.notWaiting, fun _ hr => .inl hr⟩

theorem forget (h : P.Filed old) : P.Filed [] :=
  ⟨h.once, h.known, h.notPending, h.notWaiting, fun _ _ => .inr (by simp)⟩

end Pool.Filed

/-- In every pool that a trace leads to, the records are in order. -/
theorem Trace.filed {steps : List Step} {ctx : ExecutionContext} (h : Trace d steps ctx) :
    ctx.pool.Filed [] := by
  refine h.maintains (C := fun _ => True) (fun n => ?_) ?_ ?_ ?_ fun _ _ => trivial
  · constructor <;> simp [Pool.start]
  · intro P n _ _ hn hI
    exact ⟨hI.once, fun r hr => (hI.known r hr).trans_le hn, hI.notPending, hI.notWaiting, hI.new⟩
  · intro before command after _ hcoh hpending hI hcmd
    exact (Pool.Filed.commanded hcoh hpending (Pool.Filed.renew (P := before.pool) hI) hcmd).forget
  · intro before t after _ hcoh hI hturned
    exact Pool.Filed.turned (P := before.pool) hcoh hI hturned

/-- What a call leaves filed: each record is an old one, or that of a token that has no old one. -/
theorem Call.filed {steps : List Step} {fuel : Nat} {command : EngineCommand}
    {state : EngineState} {options : ExecuteOptions} {result : EngineResult}
    (h : Call d steps command (some state) options)
    (hok : execute d fuel command (some state) options = .ok result) :
    (result.newState.compensationRecords.map (·.tokenId)).Nodup ∧
      ∀ r ∈ result.newState.compensationRecords, r ∈ state.compensationRecords ∨
        ∀ r' ∈ state.compensationRecords, r'.tokenId ≠ r.tokenId := by
  obtain ⟨htrace, -⟩ := h.trace
  obtain ⟨ctx, inst, hfiled, hstate, -⟩ := h.maintains (C := fun _ => True)
    (I := fun P => P.Filed state.compensationRecords) hok (fun _ _ => trivial)
    (fun after _ hcoh hcmd =>
      Pool.Filed.commanded hcoh rfl htrace.filed.renew hcmd)
    fun before t after _ hcoh hI hturned =>
      Pool.Filed.turned (P := before.pool) hcoh hI hturned
  rw [hstate]
  exact ⟨hfiled.once, hfiled.new⟩

end NexusWorkflow
