import NexusWorkflow.Game.Birth
import NexusWorkflow.Game.Settled

/-!
# What becomes of a token

In one step a token keeps its status, or it is cancelled while it is live, or it is completed: as
the token that acts, as its parent, as the token that waits at its sub-process, or at a cancel
boundary event.
-/

namespace NexusWorkflow

variable {d : ProcessDefinition} {P Q S P' : Pool} {origins : List Origin} {R : Token → Prop}

/-- From the version `x` of a token to the version `y`; `R` says which tokens may be completed. -/
structure Fate (R : Token → Prop) (x y : Token) : Prop where
  bare : x.bare = y.bare
  status : (y.status = x.status ∧ y.waitingFor = x.waitingFor) ∨
    (y.status = .cancelled ∧ x.live = true) ∨ (y.status = .completed ∧ R x)

/-- Every token of `Q` comes from one of `P`. -/
def Fates (R : Token → Prop) (P Q : Pool) : Prop := ∀ y ∈ Q.tokens, ∃ x ∈ P.tokens, Fate R x y

/-- The property does not depend on what changes while the token stands at its element. -/
def OfPlace (R : Token → Prop) : Prop := ∀ x y : Token, x.bare = y.bare → R x → R y

namespace Fate

variable {x y z : Token}

theorem refl (x : Token) : Fate R x x := ⟨rfl, .inl ⟨rfl, rfl⟩⟩

theorem trans (hR : OfPlace R) (h : Fate R x y) (h' : Fate R y z) : Fate R x z := by
  refine ⟨h.bare.trans h'.bare, ?_⟩
  rcases h'.status with ⟨hsame, hfor⟩ | ⟨hcancelled, hlive⟩ | ⟨hcompleted, hy⟩
  · rcases h.status with ⟨hs, hf⟩ | ⟨hs, hlive⟩ | ⟨hs, hx⟩
    · exact .inl ⟨hsame.trans hs, hfor.trans hf⟩
    · exact .inr (.inl ⟨hsame.trans hs, hlive⟩)
    · exact .inr (.inr ⟨hsame.trans hs, hx⟩)
  · refine .inr (.inl ⟨hcancelled, ?_⟩)
    rcases h.status with ⟨hs, -⟩ | ⟨hs, -⟩ | ⟨hs, -⟩
    · simpa [Token.live, hs] using hlive
    · simp [Token.live, hs] at hlive
    · simp [Token.live, hs] at hlive
  · exact .inr (.inr ⟨hcompleted, hR y x h.bare.symm hy⟩)

theorem cancel (h : x.live = true) : Fate R x { x with status := .cancelled } :=
  ⟨rfl, .inr (.inl ⟨rfl, h⟩)⟩

theorem mono {R' : Token → Prop} (h : Fate R x y) (hR : R x → R' x) : Fate R' x y :=
  ⟨h.bare, h.status.imp_right (Or.imp_right (And.imp_right hR))⟩

/-- A token that is completed was completed before, or is one of those that may be. -/
theorem completed (h : Fate R x y) (hc : y.status = .completed) : x.status = .completed ∨ R x := by
  rcases h.status with ⟨hs, -⟩ | ⟨hs, -⟩ | ⟨-, hR⟩
  · exact .inl (hs.symm.trans hc)
  · rw [hc] at hs
    cases hs
  · exact .inr hR

end Fate

namespace Fates

theorem refl (P : Pool) : Fates R P P := fun y hy => ⟨y, hy, .refl y⟩

theorem trans (hR : OfPlace R) (h : Fates R P Q) (h' : Fates R Q S) : Fates R P S := by
  intro z hz
  obtain ⟨y, hy, hyz⟩ := h' z hz
  obtain ⟨x, hx, hxy⟩ := h y hy
  exact ⟨x, hx, hxy.trans hR hyz⟩

theorem of_eq (h : Fates R P Q) (ht : S.tokens = Q.tokens) : Fates R P S := by
  unfold Fates
  rw [ht]
  exact h

theorem mono {R' : Token → Prop} (h : Fates R P Q) (hR : ∀ x ∈ P.tokens, R x → R' x) :
    Fates R' P Q :=
  fun y hy => (h y hy).imp fun x ⟨hx, hxy⟩ => ⟨hx, hxy.mono (hR x hx)⟩

theorem cancelAll (P : Pool) {p : Token → Bool} (hp : ∀ x, p x = true → x.live = true) :
    Fates R P (P.cancelAll p) := by
  intro y hy
  rcases Pool.mem_cancelAll hy with ⟨hy, -⟩ | ⟨x, hx, hpx, rfl⟩
  · exact ⟨y, hy, .refl y⟩
  · exact ⟨x, hx, .cancel (hp x hpx)⟩

/-- A token of the pool is completed. -/
theorem finish (hplace : OfPlace R) {t : Token} (ht : P.Holds t) (hR : R t) :
    Fates R P (P.finish t) := by
  intro y hy
  rcases Pool.mem_put hy with rfl | ⟨hy, -⟩
  · obtain ⟨x, hx, hbare⟩ := Pool.holds_iff.1 ht
    exact ⟨x, hx, hbare, .inr (.inr ⟨rfl, hplace t x hbare.symm hR⟩)⟩
  · exact ⟨y, hy, .refl y⟩

theorem clearBoundaries (P : Pool) (elementId : String) : Fates R P (P.clearBoundaries elementId) :=
  cancelAll P fun _ hx => Token.live_of_waiting (of_decide_eq_true hx).1

theorem clearHost (P : Pool) (attachedToRef : String) (firing : Option Nat) :
    Fates R P (P.clearHost attachedToRef firing) :=
  cancelAll P fun _ hx => Token.live_of_waiting (of_decide_eq_true hx).2.1

theorem clearSiblings (P : Pool) (w : Token) : Fates R P (P.clearSiblings w) := by
  unfold Pool.clearSiblings
  cases w.parentTokenId with
  | none => exact refl P
  | some parent => exact cancelAll P fun _ hx => Token.live_of_waiting (of_decide_eq_true hx).2.2

theorem clearScope (P : Pool) (s : String) (t : Token) : Fates R P (P.clearScope s t) :=
  (cancelAll P fun _ hx => (of_decide_eq_true hx).2.2).of_eq rfl

end Fates

/-! ## Who completes -/

/-- What the token `t` completes when it acts: itself, its parent, the token that waits at its
sub-process, a token at a cancel boundary event. -/
inductive Finishes (d : ProcessDefinition) (t x : Token) : Prop
  | self (h : x.id = t.id) : Finishes d t x
  | parent (h : t.parentTokenId = some x.id) : Finishes d t x
  | outer {s : String} (htag : truthy t.subProcessInstanceId = some s) (h : x.elementId = s) :
      Finishes d t x
  | boundary {s : String} {b : BoundaryEventElement} (hb : b ∈ d.findBoundariesFor s)
      (h : x.elementId = b.id) : Finishes d t x

theorem Finishes.ofPlace (t : Token) : OfPlace (Finishes d t) := by
  intro x y hxy h
  cases h with
  | self h => exact .self (Token.id_of_bare hxy ▸ h)
  | parent h => exact .parent (Token.id_of_bare hxy ▸ h)
  | outer htag h => exact .outer htag (Token.elementId_of_bare hxy ▸ h)
  | boundary hb h => exact .boundary hb (Token.elementId_of_bare hxy ▸ h)

section Rules

variable {t : Token}

theorem SubEnd.fates {s : String} (hR : OfPlace R) (houter : ∀ x ∈ P.waitingAt s, R x)
    (h : SubEnd d s P Q origins) : Fates R P Q := by
  cases h with
  | busy _ | orphan _ _ => exact .refl P
  | complete _ hwaiting _ =>
    obtain ⟨hmem, -, -⟩ := Pool.waitingAt_eq_some hwaiting
    exact .finish hR (Pool.holds_of_mem hmem) (houter _ hwaiting)

theorem FireCancel.fates {s : String} {outer : Token} (hR : OfPlace R)
    (hfired : ∀ x ∈ P.firedAt d s, R x) (houter : P.waitingAt s = some outer)
    (h : FireCancel d s outer P Q origins) : Fates R P Q := by
  obtain ⟨ho, -, how⟩ := Pool.waitingAt_eq_some houter
  cases h with
  | none _ | unarmed _ _ => exact .refl P
  | @fire b hb w hw =>
    obtain ⟨hm, -, -⟩ := Pool.waitingAt_eq_some hw
    have hfinish : Fates R P (P.finish w) :=
      .finish hR (Pool.holds_of_mem hm) (hfired w (Option.bind_eq_some_iff.2 ⟨b, hb, hw⟩))
    intro y hy
    rcases Pool.mem_put hy with rfl | ⟨hy, -⟩
    · exact ⟨outer, ho, .cancel (Token.live_of_waiting how)⟩
    · exact hfinish y hy

theorem TxCancel.fates {s : String} {x : Token} (hR : OfPlace R)
    (hfired : ∀ y ∈ P.firedByCancel d s x, R y) (h : TxCancel d s x P Q origins) :
    Fates R P Q := by
  have hclear : Fates R P (P.clearScope s x) := .clearScope P s x
  cases h with
  | compensate _ | orphan _ _ => exact hclear
  | fire hrecords houter hfire =>
    refine hclear.trans hR (hfire.fates hR (fun y hy => hfired y ?_) houter)
    unfold Pool.firedByCancel
    rw [if_pos (by simp [hrecords, houter])]
    exact hy

theorem Ends.fates {e : EventElement} (hR : OfPlace R)
    (hfired : ∀ s, truthy t.subProcessInstanceId = some s → e.eventDefinition.type = .cancel →
      ∀ y ∈ P.firedByCancel d s t, R y)
    (houter : ∀ s, truthy t.subProcessInstanceId = some s → ∀ y ∈ P.waitingAt s, R y)
    (h : Ends d t P e Q origins) : Fates R P Q := by
  cases h with
  | cancelTop _ _ | more _ _ _ _ => exact .refl P
  | cancel he htag h => exact h.fates hR (hfired _ htag he)
  | terminate _ => exact (Fates.cancelAll P fun _ hx => (of_decide_eq_true hx).2).of_eq rfl
  | inner _ _ htag h => exact h.fates hR (houter _ htag)
  | last _ _ _ _ => exact (Fates.refl P).of_eq rfl

theorem Fates.closeLoop {p : Token} (hp : P.Holds p) (hR : R p) (hplace : OfPlace R)
    (elementId : String) : Fates R P (P.closeLoop p elementId) :=
  (Fates.finish hplace hp hR).trans hplace (.clearBoundaries _ _)

theorem ChildDone.fates {e : BpmnFlowElement} {lc : MultiInstanceLoopCharacteristics}
    (hplace : OfPlace R) (hR : R t) (hparent : ∀ p, t.parentTokenId = some p.id → R p)
    (hP : P.ids.Nodup) (ht : P.Holds t) (h : ChildDone t e lc P Q origins) : Fates R P Q := by
  have hself : Fates R P (P.finish t) := .finish hplace ht hR
  have hframe := Frame.finish hP ht
  have hclose : ∀ {S : Pool} {p : Token}, Frame P S → Fates R P S →
      t.parentTokenId.bind P.get? = some p → Fates R P (S.closeLoop p e.id) := by
    intro S p hf hS hp
    obtain ⟨hholds, hpar⟩ := Pool.get?_parent hp
    exact hS.trans hplace (.closeLoop (hf.holds hholds) (hparent p hpar) hplace e.id)
  cases h with
  | orphan _ => exact .refl P
  | noLoop _ _ _ | wait _ _ _ => exact hself
  | @next p hp _ _ loopState =>
    intro y hy
    rcases Pool.mem_put hy with rfl | ⟨hy, -⟩
    · obtain ⟨i, -, hget⟩ := Option.bind_eq_some_iff.1 hp
      exact ⟨p, (Pool.get?_eq_some hget).1, rfl, .inl ⟨rfl, rfl⟩⟩
    · exact hself y hy
  | lastItem hp _ _ | allDone hp _ _ => exact hclose hframe hself hp
  | @condition p hp _ _ =>
    have hclear : Fates R P ((P.finish t).clearChildren p.id) :=
      hself.trans hplace (.cancelAll _ fun _ hx => Token.live_of_waiting (of_decide_eq_true hx).2)
    exact hclose (hframe.trans (.cancelAll _ _)) hclear hp

theorem Pool.finishes_of_firedAt {s : String} {x : Token} (h : x ∈ P.firedAt d s) :
    Finishes d t x := by
  obtain ⟨b, hb, hx⟩ := Option.bind_eq_some_iff.1 h
  obtain ⟨-, hid, -⟩ := Pool.waitingAt_eq_some hx
  exact .boundary (List.mem_of_find?_eq_some hb) hid

theorem HandlerDone.fates {throwToken : Token} (hP : P.ids.Nodup) (ht : P.Holds t)
    (hth : t.parentTokenId.bind P.get? = some throwToken)
    (h : HandlerDone d t throwToken P Q origins) : Fates (Finishes d t) P Q := by
  have hplace : OfPlace (Finishes d t) := Finishes.ofPlace t
  have hself : Fates (Finishes d t) P (P.finish t) := .finish hplace ht (.self rfl)
  obtain ⟨hholds, hparent⟩ := Pool.get?_parent hth
  cases h with
  | wait _ | orphan _ _ _ _ _ => exact hself
  | fire _ _ _ _ houter hfire =>
    exact hself.trans hplace (hfire.fates hplace (fun _ hx => Pool.finishes_of_firedAt hx) houter)
  | advance _ _ _ =>
    exact hself.trans hplace (.finish hplace ((Frame.finish hP ht).holds hholds) (.parent hparent))

theorem Complete.fates (hP : P.ids.Nodup) (ht : P.Holds t) (h : Complete d P t Q origins) :
    Fates (Finishes d t) P Q := by
  have hplace : OfPlace (Finishes d t) := Finishes.ofPlace t
  have hresume : Fates (Finishes d t) P P.autoResume := (Fates.refl P).of_eq rfl
  have hframe := Frame.autoResume P
  cases h with
  | child _ _ h =>
    have hchild := h.fates hplace (.self rfl) (fun _ hp => .parent hp) (hframe.nodup hP)
      (hframe.holds ht)
    exact hresume.trans hplace hchild
  | handler _ hrole h =>
    exact hresume.trans hplace (h.fates (hframe.nodup hP) (hframe.holds ht)
      (Pool.holds_of_role hrole))
  | plain _ _ _ =>
    have hclear : Fates (Finishes d t) P (P.autoResume.clearBoundaries t.elementId) :=
      hresume.trans hplace (.clearBoundaries _ _)
    exact (hclear.trans hplace (.finish hplace ((hframe.trans (.clearBoundaries _ _)).holds ht)
      (.self rfl))).of_eq rfl

theorem Resume.fates (ht : P.Holds t) (h : Resume d P t Q origins) :
    Fates (Finishes d t) P Q := by
  obtain ⟨-⟩ := h
  have hplace : OfPlace (Finishes d t) := Finishes.ofPlace t
  exact (Fates.finish hplace ht (.self rfl)).trans hplace (.clearSiblings _ t)

/-- In a turn, what becomes of the other tokens. -/
theorem Turn.fates_of {y : Token} (hplace : OfPlace R) (hself : R t)
    (hparent : ∀ p, t.parentTokenId = some p.id → R p)
    (houter : ∀ x, truthy t.subProcessInstanceId = some x.elementId → R x)
    (hfired : ∀ x ∈ P.firedInTurn d t, R x) (hP : P.ids.Nodup) (ht : P.Holds t)
    (h : Turn d P t Q origins) (hy : y ∈ Q.tokens) (hne : y.id ≠ t.id) :
    ∃ x ∈ P.tokens, Fate R x y := by
  have hfinish : Fates R P (P.finish t) := .finish hplace ht hself
  cases h with
  | pass _ _ _ => exact hfinish y hy
  | park _ _ =>
    rcases Pool.mem_put hy with rfl | ⟨hy, -⟩
    · exact absurd rfl hne
    · exact ⟨y, hy, .refl y⟩
  | branch _ _ _ => exact hfinish y hy
  | ends he h =>
    refine hfinish.trans hplace
      (h.fates hplace (fun s hs hcancel x hx => ?_) fun s hs x hx => ?_) y hy
    · apply hfired
      simpa only [Pool.firedInTurn, he, hs, if_pos hcancel] using hx
    · obtain ⟨-, hid, -⟩ := Pool.waitingAt_eq_some hx
      exact houter x (hid ▸ hs)
  | child _ _ _ h => exact h.fates hplace hself hparent hP ht y hy

theorem Pool.finishes_of_firedInTurn {x : Token} (h : x ∈ P.firedInTurn d t) : Finishes d t x := by
  unfold Pool.firedInTurn Pool.firedByCancel at h
  split at h
  · split_ifs at h
    · exact Pool.finishes_of_firedAt h
    · cases h
    · cases h
  · cases h

theorem Turn.fates {y : Token} (hP : P.ids.Nodup) (ht : P.Holds t) (h : Turn d P t Q origins)
    (hy : y ∈ Q.tokens) (hne : y.id ≠ t.id) : ∃ x ∈ P.tokens, Fate (Finishes d t) x y :=
  h.fates_of (Finishes.ofPlace t) (.self rfl) (fun _ hp => .parent hp)
    (fun _ hx => .outer hx rfl) (fun _ hx => Pool.finishes_of_firedInTurn hx) hP ht hy hne

end Rules

/-! ## Commands -/

theorem Token.awaitsMessage_waiting {t : Token} {name : String} (h : t.awaitsMessage name = true) :
    t.status = .waiting := by
  unfold awaitsMessage at h
  exact of_decide_eq_true (Bool.and_eq_true_iff.1 h).1

theorem Token.awaitsSignal_waiting {t : Token} {name : String} (h : t.awaitsSignal name = true) :
    t.status = .waiting := by
  unfold awaitsSignal at h
  exact of_decide_eq_true (Bool.and_eq_true_iff.1 h).1

/-- The waiting token is one that the command completes. -/
def EngineCommand.reaches (command : EngineCommand) (w : Token) : Bool :=
  match command with
  | .completeServiceTask id _ | .completeUserTask id _ _ | .fireTimer id => w.id = id
  | .deliverMessage name _ => w.awaitsMessage name
  | .broadcastSignal name _ => w.awaitsSignal name
  | _ => false

/-- A token with an old id is not a new one. -/
theorem Spawned.mem_of_lt {α : Type} {T : α → Token → Prop} {items : List α}
    (h : Spawned T items P P') {y : Token} (hy : y ∈ P'.tokens) (hlt : y.id < P.nextId) :
    y ∈ P.tokens := by
  obtain ⟨news, n, -, hfresh, rfl⟩ := h
  rcases List.mem_append.1 hy with hy | hy
  · exact hy
  · have hge := hfresh.ge y hy
    omega

theorem Deed.fates {command : EngineCommand} (hP : P.ids.Nodup) (h : Deed d P command Q origins) :
    Fates (fun x => ∃ w ∈ P.tokens, w.status = .waiting ∧ command.reaches w = true ∧
      Finishes d w x) P Q := by
  have hall : ∀ {w : Token}, w ∈ P.tokens → w.status = .waiting → command.reaches w = true →
      Fates (Finishes d w) P Q → Fates (fun x => ∃ w ∈ P.tokens, w.status = .waiting ∧
        command.reaches w = true ∧ Finishes d w x) P Q :=
    fun {w} hw hwaiting hreaches h => h.mono fun x _ hx => ⟨w, hw, hwaiting, hreaches, hx⟩
  cases h with
  | startProcess _ _ _ | failUncaught _ _ _ _ | suspendInstance _ | resumeInstance _ =>
    exact (Fates.refl P).of_eq rfl
  | completeServiceTask _ hw hwaiting h =>
    exact hall hw hwaiting (decide_eq_true rfl) (h.fates hP (Pool.holds_of_mem hw))
  | completeUserTask _ _ hw hwaiting h =>
    exact hall hw hwaiting (decide_eq_true rfl) (h.fates hP (Pool.holds_of_mem hw))
  | @failCaught _ _ w hw hwaiting _ _ =>
    intro y hy
    obtain ⟨x, hx, hxy⟩ := Fates.clearHost (R := fun _ => False) _ _ _ y hy
    rcases Pool.mem_put hx with rfl | ⟨hx, -⟩
    · refine ⟨w, hw, hxy.bare, ?_⟩
      rcases hxy.status with ⟨hs, -⟩ | ⟨hs, -⟩ | ⟨-, hfalse⟩
      · exact .inr (.inl ⟨hs, Token.live_of_waiting hwaiting⟩)
      · exact .inr (.inl ⟨hs, Token.live_of_waiting hwaiting⟩)
      · exact hfalse.elim
    · exact ⟨x, hx, hxy.mono False.elim⟩
  | @fireInterrupting w hw hwaiting _ _ _ _ =>
    refine hall hw hwaiting (decide_eq_true rfl) ?_
    exact (Fates.finish (Finishes.ofPlace w) (Pool.holds_of_mem hw) (.self rfl)).trans
      (Finishes.ofPlace w) (.clearHost _ _ _)
  | @fireBoundary w hw hwaiting _ _ _ _ =>
    exact hall hw hwaiting (decide_eq_true rfl)
      (.finish (Finishes.ofPlace w) (Pool.holds_of_mem hw) (.self rfl))
  | @fireCatch w hw hwaiting _ _ _ h =>
    refine hall hw hwaiting (decide_eq_true rfl) ?_
    have hclear := Frame.clearSiblings P w
    exact (Fates.clearSiblings P w).trans (Finishes.ofPlace w)
      (h.fates (hclear.nodup hP) (hclear.holds (Pool.holds_of_mem hw)))
  | cancelInstance => exact (Fates.cancelAll P fun _ hx => hx).of_eq rfl

theorem Resumes.fates {targets : List Token} (hP : P.Coherent []) (h : Resumes d targets P P')
    {y : Token} (hy : y ∈ P'.tokens) (hlt : y.id < P.nextId) :
    ∃ x ∈ P.tokens, Fate (fun x => ∃ w ∈ targets, Finishes d w x) x y := by
  have hplace : ∀ l : List Token, OfPlace fun x => ∃ w ∈ l, Finishes d w x :=
    fun l x y hxy ⟨w, hw, h⟩ => ⟨w, hw, Finishes.ofPlace w x y hxy h⟩
  induction h with
  | nil P => exact ⟨y, hy, .refl y⟩
  | skip _ _ _ ih =>
    obtain ⟨x, hx, hxy⟩ := ih hP hy hlt
    exact ⟨x, hx, hxy.mono fun ⟨w, hw, h⟩ => ⟨w, List.mem_cons_of_mem _ hw, h⟩⟩
  | @resume v rest P P' hv hwaiting Q mid origins hresume hmade _ ih =>
    have hframe := hresume.frame hP.nodup (Pool.holds_of_mem hv)
    have hmid : P.nextId ≤ mid.nextId := by
      obtain ⟨news, n, -, hfresh, rfl⟩ := hmade
      rw [← hframe.nextId]
      exact hfresh.le
    obtain ⟨z, hz, hzy⟩ := ih ((hresume.ready hP hv hwaiting).spawned hmade) hy (by omega)
    have hid : z.id = y.id := Token.id_of_bare hzy.bare
    have hzQ := hmade.mem_of_lt hz (by rw [hframe.nextId]; omega)
    obtain ⟨x, hx, hxz⟩ := hresume.fates (Pool.holds_of_mem hv) z hzQ
    have hone : Fate (fun x => ∃ w ∈ v :: rest, Finishes d w x) x z :=
      hxz.mono fun h => ⟨v, List.mem_cons_self, h⟩
    refine ⟨x, hx, hone.trans (hplace _) (hzy.mono ?_)⟩
    exact fun ⟨w, hw, h⟩ => ⟨w, List.mem_cons_of_mem _ hw, h⟩

/-- What becomes of the tokens that are there when a command is handled. -/
theorem Commanded.fates {command : EngineCommand} (hP : P.Coherent [])
    (h : Commanded d P command P') {y : Token} (hy : y ∈ P'.tokens) (hlt : y.id < P.nextId) :
    ∃ x ∈ P.tokens, Fate (fun x => ∃ w ∈ P.tokens, w.status = .waiting ∧
      command.reaches w = true ∧ Finishes d w x) x y := by
  have hresumes : ∀ {p : Token → Bool}, (∀ w, p w = true → command.reaches w = true) →
      (∀ w, p w = true → w.status = .waiting) → Resumes d (P.tokens.filter p) P P' →
      ∃ x ∈ P.tokens, Fate (fun x => ∃ w ∈ P.tokens, w.status = .waiting ∧
        command.reaches w = true ∧ Finishes d w x) x y := by
    intro p hreaches hwaiting hr
    obtain ⟨x, hx, hxy⟩ := hr.fates hP hy hlt
    refine ⟨x, hx, hxy.mono fun ⟨w, hw, h⟩ => ?_⟩
    obtain ⟨hmem, hpw⟩ := List.mem_filter.1 hw
    exact ⟨w, hmem, hwaiting w hpw, hreaches w hpw, h⟩
  cases h with
  | deed hd hmade =>
    have hframe := hd.frame hP.nodup
    exact hd.fates hP.nodup y (hmade.mem_of_lt hy (by rw [hframe.nextId]; exact hlt))
  | deliverMessage name _ hr =>
    exact hresumes (fun w h => h) (fun w => Token.awaitsMessage_waiting) hr
  | broadcastSignal name _ hr =>
    exact hresumes (fun w h => h) (fun w => Token.awaitsSignal_waiting) hr

end NexusWorkflow
