import NexusWorkflow.Game.Play

/-!
# The frame of a rule

A token never changes its place: its element, scope, parent and sub-process stay what they were when
it was made.  `Frame P Q` says that `Q` has the tokens of `P`, each at its place, and the queue and
the next id of `P`; every rule of the game leads from `P` to such a `Q` before it makes new tokens.
-/

namespace NexusWorkflow

/-- The token without what changes while it stands at its element. -/
def Token.bare (t : Token) : Token :=
  { t with status := .active, waitingFor := none, loopState := none }

namespace Token

variable (t : Token)

@[simp] theorem id_bare : t.bare.id = t.id := rfl
@[simp] theorem elementId_bare : t.bare.elementId = t.elementId := rfl
@[simp] theorem elementType_bare : t.bare.elementType = t.elementType := rfl
@[simp] theorem scopeId_bare : t.bare.scopeId = t.scopeId := rfl
@[simp] theorem arrivedViaFlowId_bare : t.bare.arrivedViaFlowId = t.arrivedViaFlowId := rfl
@[simp] theorem parentTokenId_bare : t.bare.parentTokenId = t.parentTokenId := rfl
@[simp] theorem subProcessInstanceId_bare :
    t.bare.subProcessInstanceId = t.subProcessInstanceId := rfl

variable {t} {x : Token}

theorem id_of_bare (h : x.bare = t.bare) : x.id = t.id := by
  simpa using congrArg Token.id h

theorem elementId_of_bare (h : x.bare = t.bare) : x.elementId = t.elementId := by
  simpa using congrArg Token.elementId h

theorem elementType_of_bare (h : x.bare = t.bare) : x.elementType = t.elementType := by
  simpa using congrArg Token.elementType h

theorem parent_of_bare (h : x.bare = t.bare) : x.parentTokenId = t.parentTokenId := by
  simpa using congrArg Token.parentTokenId h

theorem tag_of_bare (h : x.bare = t.bare) : x.subProcessInstanceId = t.subProcessInstanceId := by
  simpa using congrArg Token.subProcessInstanceId h

end Token

namespace Pool

variable (P : Pool)

def places : List Token := P.tokens.map Token.bare

/-- A version of the token is in the pool. -/
def Holds (t : Token) : Prop := t.bare ∈ P.places

variable {P}

theorem ids_eq_places : P.ids = P.places.map (·.id) := by
  simp [ids, places, Function.comp_def]

theorem holds_of_mem {t : Token} (h : t ∈ P.tokens) : P.Holds t := List.mem_map_of_mem h

theorem holds_iff {t : Token} : P.Holds t ↔ ∃ x ∈ P.tokens, x.bare = t.bare := List.mem_map

theorem Holds.mem_ids {t : Token} (h : P.Holds t) : t.id ∈ P.ids := by
  rw [ids_eq_places]
  exact List.mem_map.2 ⟨t.bare, h, rfl⟩

theorem eq_of_id (hP : P.ids.Nodup) {x y : Token} (hx : x ∈ P.tokens) (hy : y ∈ P.tokens)
    (h : x.id = y.id) : x = y :=
  List.inj_on_of_nodup_map hP hx hy h

theorem get?_eq_some {id : Nat} {x : Token} (h : P.get? id = some x) :
    x ∈ P.tokens ∧ x.id = id := by
  unfold get? at h
  exact ⟨List.mem_of_find?_eq_some h, by simpa using List.find?_some h⟩

theorem get?_of_mem (hP : P.ids.Nodup) {x : Token} (h : x ∈ P.tokens) : P.get? x.id = some x := by
  rcases hg : P.get? x.id with _ | y
  · have := List.find?_eq_none.1 hg x h
    simp at this
  · obtain ⟨hy, hid⟩ := get?_eq_some hg
    rw [eq_of_id hP hy h hid]

theorem waitingAt_eq_some {elementId : String} {x : Token} (h : P.waitingAt elementId = some x) :
    x ∈ P.tokens ∧ x.elementId = elementId ∧ x.status = .waiting := by
  unfold waitingAt at h
  have := List.find?_some h
  simp only [decide_eq_true_eq] at this
  exact ⟨List.mem_of_find?_eq_some h, this⟩

end Pool

/-! ## Frames -/

/-- The same tokens at the same places, the same queue and the same next id. -/
structure Frame (P Q : Pool) : Prop where
  places : Q.places = P.places
  pending : Q.pending = P.pending
  nextId : Q.nextId = P.nextId

namespace Frame

variable {P Q R : Pool}

theorem refl (P : Pool) : Frame P P := ⟨rfl, rfl, rfl⟩

theorem trans (h : Frame P Q) (h' : Frame Q R) : Frame P R :=
  ⟨h'.places.trans h.places, h'.pending.trans h.pending, h'.nextId.trans h.nextId⟩

theorem symm (h : Frame P Q) : Frame Q P := ⟨h.1.symm, h.2.symm, h.3.symm⟩

theorem ids (h : Frame P Q) : Q.ids = P.ids := by
  rw [Pool.ids_eq_places, Pool.ids_eq_places, h.places]

theorem nodup (h : Frame P Q) (hP : P.ids.Nodup) : Q.ids.Nodup := h.ids ▸ hP

theorem holds (h : Frame P Q) {t : Token} (ht : P.Holds t) : Q.Holds t := by
  unfold Pool.Holds
  rw [h.places]
  exact ht

/-- The token of `Q` that stands where a token of `P` does. -/
theorem exists_mem (h : Frame P Q) {x : Token} (hx : x ∈ P.tokens) :
    ∃ y ∈ Q.tokens, y.bare = x.bare :=
  Pool.holds_iff.1 (h.holds (Pool.holds_of_mem hx))

theorem exists_mem' (h : Frame P Q) {y : Token} (hy : y ∈ Q.tokens) :
    ∃ x ∈ P.tokens, x.bare = y.bare := by
  have : y.bare ∈ Q.places := Pool.holds_of_mem hy
  rw [h.places] at this
  exact Pool.holds_iff.1 this

theorem numbered (h : Frame P Q) (hP : P.Numbered) : Q.Numbered := by
  intro y hy
  obtain ⟨x, hx, hxy⟩ := h.exists_mem' hy
  rw [h.nextId, ← Token.id_of_bare hxy]
  exact hP x hx

theorem put (hP : P.ids.Nodup) {t : Token} (ht : P.Holds t) : Frame P (P.put t) where
  places := by
    obtain ⟨y, hy, hyt⟩ := Pool.holds_iff.1 ht
    simp only [Pool.places, Pool.put, List.map_map]
    apply List.map_congr_left
    intro x hx
    simp only [Function.comp_apply, Pool.update]
    split_ifs with h
    · rw [Pool.eq_of_id hP hx hy (h.trans (Token.id_of_bare hyt).symm), hyt]
    · rfl
  pending := rfl
  nextId := rfl

theorem finish (hP : P.ids.Nodup) {t : Token} (ht : P.Holds t) : Frame P (P.finish t) :=
  put hP (t := { t with status := .completed }) ht

theorem cancelAll (P : Pool) (p : Token → Bool) : Frame P (P.cancelAll p) where
  places := by
    simp only [Pool.places, Pool.cancelAll, List.map_map]
    apply List.map_congr_left
    intro x _
    simp only [Function.comp_apply, Pool.kill]
    split_ifs <;> rfl
  pending := rfl
  nextId := rfl

theorem cancelOne (hP : P.ids.Nodup) {t : Token} (ht : P.Holds t) : Frame P (P.cancelOne t) :=
  have h := put hP (t := { t with status := .cancelled }) ht
  ⟨h.places, h.pending, h.nextId⟩

theorem clearSiblings (P : Pool) (w : Token) : Frame P (P.clearSiblings w) := by
  unfold Pool.clearSiblings
  cases w.parentTokenId with
  | none => exact refl P
  | some parent => exact cancelAll P _

theorem clearChildren (P : Pool) (parent : Nat) : Frame P (P.clearChildren parent) := cancelAll P _

theorem clearBoundaries (P : Pool) (elementId : String) : Frame P (P.clearBoundaries elementId) :=
  cancelAll P _

theorem closeLoop (hP : P.ids.Nodup) {p : Token} (hp : P.Holds p) (elementId : String) :
    Frame P (P.closeLoop p elementId) :=
  (finish hP hp).trans (cancelAll _ _)

/-- The instance, the join states and the records do not matter. -/
theorem of_eq (ht : Q.tokens = P.tokens) (hp : Q.pending = P.pending) (hn : Q.nextId = P.nextId) :
    Frame P Q :=
  ⟨by rw [Pool.places, Pool.places, ht], hp, hn⟩

end Frame

/-! ## The rules -/

variable {d : ProcessDefinition} {P Q : Pool} {origins : List Origin}

theorem Pool.holds_of_get? {id : Option Nat} {p : Token} (h : id.bind P.get? = some p) :
    P.Holds p := by
  obtain ⟨i, -, hi⟩ := Option.bind_eq_some_iff.1 h
  exact Pool.holds_of_mem (Pool.get?_eq_some hi).1

theorem Pool.holds_of_waitingAt {s : String} {x : Token} (h : P.waitingAt s = some x) : P.Holds x :=
  Pool.holds_of_mem (Pool.waitingAt_eq_some h).1

theorem SubEnd.frame {s : String} (hP : P.ids.Nodup) (h : SubEnd d s P Q origins) : Frame P Q := by
  cases h with
  | busy _ => exact .refl P
  | orphan _ _ => exact .refl P
  | complete _ houter _ => exact .finish hP (Pool.holds_of_waitingAt houter)

theorem FireCancel.frame {s : String} {outer : Token} (hP : P.ids.Nodup) (ho : P.Holds outer)
    (h : FireCancel d s outer P Q origins) : Frame P Q := by
  cases h with
  | none _ => exact .refl P
  | unarmed _ _ => exact .refl P
  | fire _ hw =>
    have hf := Frame.finish hP (Pool.holds_of_waitingAt hw)
    exact hf.trans (.cancelOne (hf.nodup hP) (hf.holds ho))

theorem Frame.clearScope (P : Pool) (s : String) (t : Token) : Frame P (P.clearScope s t) :=
  (Frame.cancelAll P _).trans (.of_eq rfl rfl rfl)

theorem TxCancel.frame {s : String} {t : Token} (hP : P.ids.Nodup)
    (h : TxCancel d s t P Q origins) : Frame P Q := by
  have hclear := Frame.clearScope P s t
  cases h with
  | compensate _ => exact hclear
  | orphan _ _ => exact hclear
  | fire _ houter hfire =>
    exact hclear.trans (hfire.frame (hclear.nodup hP) (Pool.holds_of_waitingAt houter))

theorem Ends.frame {t : Token} {e : EventElement} (hP : P.ids.Nodup)
    (h : Ends d t P e Q origins) : Frame P Q := by
  cases h with
  | cancelTop _ _ => exact .refl P
  | cancel _ _ h => exact h.frame hP
  | terminate _ => exact (Frame.cancelAll P _).trans (.of_eq rfl rfl rfl)
  | inner _ _ _ h => exact h.frame hP
  | last _ _ _ _ _ => exact .of_eq rfl rfl rfl
  | more _ _ _ _ => exact .refl P

theorem ChildDone.frame {c : Token} {e : BpmnFlowElement} {lc : MultiInstanceLoopCharacteristics}
    (hP : P.ids.Nodup) (hc : P.Holds c) (h : ChildDone c e lc P Q origins) : Frame P Q := by
  have hf := Frame.finish hP hc
  cases h with
  | orphan _ => exact .refl P
  | noLoop _ _ _ => exact hf
  | @next p hp _ _ loopState =>
    have hp := hf.holds (Pool.holds_of_get? hp)
    exact hf.trans (.put (hf.nodup hP) (t := { p with loopState := some loopState }) hp)
  | lastItem hp _ _ =>
    exact hf.trans (.closeLoop (hf.nodup hP) (hf.holds (Pool.holds_of_get? hp)) _)
  | @condition p hp _ _ =>
    have hk := hf.trans (Frame.clearChildren _ p.id)
    exact hk.trans (.closeLoop (hk.nodup hP) (hk.holds (Pool.holds_of_get? hp)) _)
  | allDone hp _ _ => exact hf.trans (.closeLoop (hf.nodup hP) (hf.holds (Pool.holds_of_get? hp)) _)
  | wait _ _ _ => exact hf

theorem HandlerDone.frame {h throwToken : Token} (hP : P.ids.Nodup) (hh : P.Holds h)
    (hth : P.Holds throwToken) (hd : HandlerDone d h throwToken P Q origins) : Frame P Q := by
  have hf := Frame.finish hP hh
  cases hd with
  | wait _ => exact hf
  | orphan _ _ _ _ _ => exact hf
  | fire _ _ _ _ houter hfire =>
    exact hf.trans (hfire.frame (hf.nodup hP) (Pool.holds_of_waitingAt houter))
  | advance _ _ _ => exact hf.trans (.finish (hf.nodup hP) (hf.holds hth))

/-- Before it makes new tokens, a turn leaves every token at its place. -/
theorem Turn.frame {t : Token} (hP : P.ids.Nodup) (ht : P.Holds t) (h : Turn d P t Q origins) :
    Frame P Q := by
  cases h with
  | pass _ _ _ => exact (Frame.finish hP ht).trans (.of_eq rfl rfl rfl)
  | park _ _ =>
    refine Frame.trans (.put hP
      (t := { t with status := .waiting, waitingFor := _, loopState := _ })
      ?_) (.of_eq rfl rfl rfl)
    exact ht
  | branch _ _ _ => exact .finish hP ht
  | ends _ h =>
    have hf := Frame.finish hP ht
    exact hf.trans (h.frame (hf.nodup hP))
  | child _ _ _ h => exact h.frame hP ht

theorem Pool.holds_of_role {w th : Token} {e : BpmnFlowElement} (h : P.role w e = .handler th) :
    w.parentTokenId.bind P.get? = some th := by
  unfold role at h
  cases hp : w.parentTokenId.bind P.get? with
  | none => simp [hp] at h
  | some parent =>
    simp only [hp] at h
    split at h
    · cases h
    · split_ifs at h
      · cases h
        rfl

theorem Frame.autoResume (P : Pool) : Frame P P.autoResume := .of_eq rfl rfl rfl

theorem Complete.frame {w : Token} (hP : P.ids.Nodup) (hw : P.Holds w)
    (h : Complete d P w Q origins) : Frame P Q := by
  have hr := Frame.autoResume P
  cases h with
  | child _ _ h => exact hr.trans (h.frame (hr.nodup hP) (hr.holds hw))
  | handler _ hrole h =>
    have hth := Pool.holds_of_get? (Pool.holds_of_role hrole)
    exact hr.trans (h.frame (hr.nodup hP) (hr.holds hw) (hr.holds hth))
  | plain _ _ _ =>
    have hc := hr.trans (Frame.clearBoundaries _ w.elementId)
    exact (hc.trans (.finish (hc.nodup hP) (hc.holds hw))).trans (.of_eq rfl rfl rfl)

theorem Resume.frame {w : Token} (hP : P.ids.Nodup) (hw : P.Holds w)
    (h : Resume d P w Q origins) : Frame P Q := by
  obtain ⟨-⟩ := h
  exact (Frame.finish hP hw).trans (.clearSiblings _ _)

theorem Deed.frame {command : EngineCommand} (hP : P.ids.Nodup) (h : Deed d P command Q origins) :
    Frame P Q := by
  cases h with
  | startProcess _ _ _ => exact .of_eq rfl rfl rfl
  | completeServiceTask _ hw _ h => exact h.frame hP (Pool.holds_of_mem hw)
  | completeUserTask _ _ hw _ h => exact h.frame hP (Pool.holds_of_mem hw)
  | failCaught _ hw _ _ => exact (Frame.cancelOne hP (Pool.holds_of_mem hw)).trans (.cancelAll _ _)
  | failUncaught _ _ _ _ => exact .of_eq rfl rfl rfl
  | fireInterrupting hw _ _ _ _ =>
    exact (Frame.finish hP (Pool.holds_of_mem hw)).trans (.cancelAll _ _)
  | fireBoundary hw _ _ _ _ => exact .finish hP (Pool.holds_of_mem hw)
  | @fireCatch w hw _ _ _ _ h =>
    have hs := Frame.clearSiblings P w
    exact hs.trans (h.frame (hs.nodup hP) (hs.holds (Pool.holds_of_mem hw)))
  | suspendInstance _ => exact .of_eq rfl rfl rfl
  | resumeInstance _ => exact .of_eq rfl rfl rfl
  | cancelInstance => exact (Frame.cancelAll P _).trans (.of_eq rfl rfl rfl)

end NexusWorkflow
