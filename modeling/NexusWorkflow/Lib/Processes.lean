import Mathlib

/-!
# Processes on a shared state

A process calls one operation of the shared state after the other.  What comes of an operation is
one of a list of outcomes: several, when it may fail, and none, when it has to wait.  A process is
run alone (`Process.always` is what holds after every such run), or interleaved with other ones
(`World.Leads`).  Then the rule is: an invariant that every outcome of every operation keeps holds
in every state of every run (`World.Leads.keeps`).
-/

/-- A process ends, or calls an operation and goes on with what the operation returns or throws. -/
inductive Process (Op : Type) (Answer : Op → Type) (ε α : Type) where
  | done (a : α) : Process Op Answer ε α
  | call (op : Op) (next : Except ε (Answer op) → Process Op Answer ε α) : Process Op Answer ε α

namespace Process

variable {Op : Type} {Answer : Op → Type} {ε α β γ σ : Type}

protected def bind : Process Op Answer ε α → (α → Process Op Answer ε β) → Process Op Answer ε β
  | done a, f => f a
  | call op next, f => call op fun answer => (next answer).bind f

instance : Monad (Process Op Answer ε) where
  pure := done
  bind := Process.bind

theorem bind_done (p : Process Op Answer ε α) : p.bind done = p := by
  induction p with
  | done a => rfl
  | call op next ih => exact congrArg (call op) (funext ih)

theorem bind_assoc (p : Process Op Answer ε α) (f : α → Process Op Answer ε β)
    (g : β → Process Op Answer ε γ) : (p.bind f).bind g = p.bind fun a => (f a).bind g := by
  induction p with
  | done a => rfl
  | call op next ih => exact congrArg (call op) (funext ih)

instance : LawfulMonad (Process Op Answer ε) :=
  LawfulMonad.mk' _ bind_done (fun _ _ => rfl) bind_assoc

/-- Whatever the process is answered, its operations are among these. -/
def onlyCalls (Q : Op → Prop) : Process Op Answer ε α → Prop
  | done _ => True
  | call op next => Q op ∧ ∀ answer, (next answer).onlyCalls Q

theorem onlyCalls_bind {Q : Op → Prop} {p : Process Op Answer ε α} {f : α → Process Op Answer ε β}
    (hp : p.onlyCalls Q) (hf : ∀ a, (f a).onlyCalls Q) : (p >>= f).onlyCalls Q := by
  induction p with
  | done a => exact hf a
  | call op next ih => exact ⟨hp.1, fun answer => ih answer (hp.2 answer)⟩

/-- Whatever the process is answered, it ends with one of these. -/
def onlyReturns (R : α → Prop) : Process Op Answer ε α → Prop
  | done a => R a
  | call _ next => ∀ answer, (next answer).onlyReturns R

theorem onlyReturns_of_forall {R : α → Prop} (p : Process Op Answer ε α) (h : ∀ a, R a) :
    p.onlyReturns R := by
  induction p with
  | done a => exact h a
  | call op next ih => exact ih

theorem onlyReturns_mono {R S : α → Prop} {p : Process Op Answer ε α} (hp : p.onlyReturns R)
    (himp : ∀ a, R a → S a) : p.onlyReturns S := by
  induction p with
  | done a => exact himp a hp
  | call op next ih => exact fun answer => ih answer (hp answer)

theorem onlyReturns_bind {R : β → Prop} {p : Process Op Answer ε α} {f : α → Process Op Answer ε β}
    (hf : ∀ a, (f a).onlyReturns R) : (p >>= f).onlyReturns R := by
  induction p with
  | done a => exact hf a
  | call op next ih => exact fun answer => ih answer

section Good

/-! ### When it is answered well -/

variable (good begins : (op : Op) → Except ε (Answer op) → Prop)

/-- If all the answers are good, the process ends with one of these. -/
def onlyReturnsIf (R : α → Prop) : Process Op Answer ε α → Prop
  | done a => R a
  | call op next => ∀ answer, good op answer → (next answer).onlyReturnsIf R

/-- From a beginning on, if all the answers are good, the process ends with one of these. -/
def onlyReturnsOnce (R : α → Prop) : Process Op Answer ε α → Prop
  | done _ => True
  | call op next => ∀ answer, (begins op answer → (next answer).onlyReturnsIf good R) ∧
      (next answer).onlyReturnsOnce R

variable {good begins}

theorem onlyReturnsIf_bind {R : α → Prop} {S : β → Prop} {p : Process Op Answer ε α}
    {f : α → Process Op Answer ε β} (hp : p.onlyReturnsIf good R)
    (hf : ∀ a, R a → (f a).onlyReturnsIf good S) : (p >>= f).onlyReturnsIf good S := by
  induction p with
  | done a => exact hf a hp
  | call op next ih => exact fun answer hgood => ih answer (hp answer hgood)

/-- Nothing begins. -/
theorem onlyReturnsOnce_of_onlyCalls {R : α → Prop} {p : Process Op Answer ε α}
    (hp : p.onlyCalls fun op => ∀ answer, ¬ begins op answer) :
    p.onlyReturnsOnce good begins R := by
  induction p with
  | done a => trivial
  | call op next ih => exact fun answer =>
    ⟨fun hbegins => absurd hbegins (hp.1 answer), ih answer (hp.2 answer)⟩

/-- It begins in the first part, or in the second one. -/
theorem onlyReturnsOnce_bind {R P : α → Prop} {S : β → Prop} {p : Process Op Answer ε α}
    {f : α → Process Op Answer ε β} (hp : p.onlyReturnsOnce good begins R) (hP : p.onlyReturns P)
    (hgo : ∀ a, R a → (f a).onlyReturnsIf good S)
    (hf : ∀ a, P a → (f a).onlyReturnsOnce good begins S) :
    (p >>= f).onlyReturnsOnce good begins S := by
  induction p with
  | done a => exact hf a hP
  | call op next ih =>
    exact fun answer => ⟨fun hbegins => onlyReturnsIf_bind ((hp answer).1 hbegins) hgo,
      ih answer (hp answer).2 (hP answer)⟩

end Good

/-! ## Alone -/

section Alone

variable (outcomes : σ → (op : Op) → List (σ × Except ε (Answer op)))

/-- What holds at the end of every run of the process alone. -/
def always : Process Op Answer ε α → (σ → α → Prop) → σ → Prop
  | done a, Q, s => Q s a
  | call op next, Q, s => ∀ s' answer, (s', answer) ∈ outcomes s op → (next answer).always Q s'

/-- A run of the process alone. -/
inductive Ends : Process Op Answer ε α → σ → σ → α → Prop
  | done (a : α) (s : σ) : Ends (done a) s s a
  | call {op : Op} {next : Except ε (Answer op) → Process Op Answer ε α} {s s' s'' : σ}
      {answer : Except ε (Answer op)} {a : α} (h : (s', answer) ∈ outcomes s op)
      (hrest : Ends (next answer) s' s'' a) : Ends (call op next) s s'' a

variable {outcomes} {Q R : σ → α → Prop} {s : σ}

theorem always_iff (p : Process Op Answer ε α) :
    p.always outcomes Q s ↔ ∀ s' a, Ends outcomes p s s' a → Q s' a := by
  induction p generalizing s with
  | done a =>
    constructor
    · rintro h s' a' ⟨⟩
      exact h
    · exact fun h => h s a (.done a s)
  | call op next ih =>
    constructor
    · intro h s' a hrun
      cases hrun with
      | call hmem hrest => exact (ih _).1 (h _ _ hmem) s' a hrest
    · intro h s' answer hmem
      exact (ih _).2 fun s'' a hrest => h s'' a (.call hmem hrest)

theorem always_mono {p : Process Op Answer ε α} (h : p.always outcomes Q s)
    (himp : ∀ s a, Q s a → R s a) : p.always outcomes R s := by
  induction p generalizing s with
  | done a => exact himp s a h
  | call op next ih => exact fun s' answer hmem => ih answer (h s' answer hmem)

/-- Fewer outcomes. -/
theorem always_of_subset {outcomes' : σ → (op : Op) → List (σ × Except ε (Answer op))}
    {p : Process Op Answer ε α} (h : p.always outcomes Q s)
    (hsub : ∀ s op x, x ∈ outcomes' s op → x ∈ outcomes s op) : p.always outcomes' Q s := by
  induction p generalizing s with
  | done a => exact h
  | call op next ih => exact fun s' answer hmem => ih answer (h s' answer (hsub s op _ hmem))

theorem always_bind {p : Process Op Answer ε α} {f : α → Process Op Answer ε β} {Q : σ → β → Prop} :
    (p >>= f).always outcomes Q s ↔ p.always outcomes (fun s a => (f a).always outcomes Q s) s := by
  induction p generalizing s with
  | done a => exact Iff.rfl
  | call op next ih =>
    exact forall_congr' fun s' => forall_congr' fun answer => imp_congr_right fun _ => ih answer

variable (outcomes) in
/-- The run in which the calls get the outcomes with these numbers. -/
def play : List Nat → Process Op Answer ε α → σ → Option (σ × α)
  | _, done a, s => some (s, a)
  | [], call _ _, _ => none
  | k :: ks, call op next, s => ((outcomes s op)[k]?).bind fun (s', answer) =>
    play ks (next answer) s'

theorem Ends.of_play {ks : List Nat} {p : Process Op Answer ε α} {s s' : σ} {a : α}
    (h : p.play outcomes ks s = some (s', a)) : Ends outcomes p s s' a := by
  induction ks generalizing p s with
  | nil =>
    cases p with
    | done b =>
      cases h
      exact .done _ _
    | call op next => cases h
  | cons k ks ih =>
    cases p with
    | done b =>
      cases h
      exact .done _ _
    | call op next =>
      obtain ⟨⟨s₁, answer⟩, hk, hrest⟩ := Option.bind_eq_some_iff.1 h
      exact .call (List.mem_of_getElem? hk) (ih hrest)

end Alone

end Process

/-! ## Functions that may throw -/

/-- An asynchronous function: a process that returns or throws. -/
abbrev Async (Op : Type) (Answer : Op → Type) (ε : Type) := ExceptT ε (Process Op Answer ε)

namespace Async

variable {Op : Type} {Answer : Op → Type} {ε α β σ : Type}

def await (op : Op) : Async Op Answer ε (Answer op) := ExceptT.mk (.call op .done)

/-- Whatever the function is answered, it throws or returns one of these. -/
def onlyReturns (R : α → Prop) (x : Async Op Answer ε α) : Prop :=
  Process.onlyReturns (fun r => ∀ a, r = .ok a → R a) x.run

theorem onlyReturns_pure {R : α → Prop} {a : α} (h : R a) :
    (pure a : Async Op Answer ε α).onlyReturns R := by
  rintro b ⟨⟩
  exact h

theorem onlyReturns_throw {R : α → Prop} {e : ε} :
    (throw e : Async Op Answer ε α).onlyReturns R := by
  rintro b ⟨⟩

theorem onlyReturns_bind {R : β → Prop} {x : Async Op Answer ε α} {f : α → Async Op Answer ε β}
    (hf : ∀ a, (f a).onlyReturns R) : (x >>= f).onlyReturns R := by
  unfold Async.onlyReturns
  rw [ExceptT.run_bind]
  refine Process.onlyReturns_bind fun r => ?_
  cases r with
  | ok a => exact hf a
  | error e => rintro b ⟨⟩

/-- Whatever the function is answered, its operations are among these. -/
def onlyCalls (Q : Op → Prop) (x : Async Op Answer ε α) : Prop := Process.onlyCalls Q x.run

section Calls

variable {Q : Op → Prop} {x : Async Op Answer ε α}

theorem onlyCalls_pure {a : α} : (pure a : Async Op Answer ε α).onlyCalls Q := trivial

theorem onlyCalls_throw {e : ε} : (throw e : Async Op Answer ε α).onlyCalls Q := trivial

theorem onlyCalls_await {op : Op} (h : Q op) :
    (await op : Async Op Answer ε (Answer op)).onlyCalls Q :=
  ⟨h, fun _ => trivial⟩

theorem onlyCalls_bind {f : α → Async Op Answer ε β} (hx : x.onlyCalls Q)
    (hf : ∀ a, (f a).onlyCalls Q) : (x >>= f).onlyCalls Q := by
  unfold Async.onlyCalls
  rw [ExceptT.run_bind]
  refine Process.onlyCalls_bind hx fun r => ?_
  cases r with
  | ok a => exact hf a
  | error e => trivial

theorem onlyCalls_map {g : α → β} (hx : x.onlyCalls Q) : (g <$> x).onlyCalls Q := by
  rw [map_eq_pure_bind]
  exact onlyCalls_bind hx fun _ => trivial

theorem onlyCalls_tryCatch {handle : ε → Async Op Answer ε α} (hx : x.onlyCalls Q)
    (hhandle : ∀ e, (handle e).onlyCalls Q) : (tryCatch x handle).onlyCalls Q := by
  refine Process.onlyCalls_bind hx fun r => ?_
  cases r with
  | ok a => trivial
  | error e => exact hhandle e

end Calls

section Alone

variable (outcomes : σ → (op : Op) → List (σ × Except ε (Answer op)))

/-- What holds whenever the function, run alone, has returned or thrown. -/
def always (x : Async Op Answer ε α) (Q : σ → Except ε α → Prop) (s : σ) : Prop :=
  Process.always outcomes x.run Q s

variable {outcomes} {x : Async Op Answer ε α} {f : α → Async Op Answer ε β}
    {Q R : σ → Except ε α → Prop}
  {s : σ}

theorem always_mono (h : x.always outcomes Q s) (himp : ∀ s a, Q s a → R s a) :
    x.always outcomes R s :=
  Process.always_mono h himp

@[simp] theorem always_pure {a : α} : (pure a : Async Op Answer ε α).always outcomes Q s ↔
    Q s (.ok a) := Iff.rfl

@[simp] theorem always_throw {e : ε} :
    (throw e : Async Op Answer ε α).always outcomes Q s ↔ Q s (.error e) := Iff.rfl

@[simp] theorem always_await {op : Op} {Q : σ → Except ε (Answer op) → Prop} :
    (await op : Async Op Answer ε (Answer op)).always outcomes Q s ↔
      ∀ s' answer, (s', answer) ∈ outcomes s op → Q s' answer := Iff.rfl

@[simp] theorem always_bind {Q : σ → Except ε β → Prop} :
    (x >>= f).always outcomes Q s ↔
      x.always outcomes (fun s r =>
        match r with
        | .ok a => (f a).always outcomes Q s
        | .error e => Q s (.error e)) s := by
  unfold Async.always
  rw [ExceptT.run_bind, Process.always_bind]
  constructor <;> intro h <;> refine Process.always_mono h fun s r hr => ?_ <;> cases r <;> exact hr

@[simp] theorem always_map {g : α → β} {Q : σ → Except ε β → Prop} :
    (g <$> x).always outcomes Q s ↔ x.always outcomes (fun s r => Q s (r.map g)) s := by
  unfold Async.always
  rw [ExceptT.run_map, map_eq_pure_bind, Process.always_bind]
  exact Iff.rfl

@[simp] theorem always_tryCatch {handle : ε → Async Op Answer ε α} :
    (tryCatch x handle).always outcomes Q s ↔
      x.always outcomes (fun s r =>
        match r with
        | .ok a => Q s (.ok a)
        | .error e => (handle e).always outcomes Q s) s := by
  unfold Async.always
  show Process.always outcomes (x.run >>= fun r => _) Q s ↔ _
  rw [Process.always_bind]
  constructor <;> intro h <;> refine Process.always_mono h fun s r hr => ?_ <;> cases r <;> exact hr

end Alone

end Async

/-! ## As a part of a larger program

The operations are among those of a larger state, which answers them in the same way. -/

section Part

variable {Op Op' : Type} {Answer : Op → Type} {Answer' : Op' → Type} {ε α β σ σ' ρ : Type}
    (f : Op → Op')
  (back : ∀ op, Except ε (Answer' (f op)) → Except ε (Answer op))

namespace Process

def lift : Process Op Answer ε α → Process Op' Answer' ε α
  | done a => done a
  | call op next => call (f op) fun answer => (next (back op answer)).lift

variable {f back} {outcomes : σ → (op : Op) → List (σ × Except ε (Answer op))}
  {outcomes' : σ' → (op : Op') → List (σ' × Except ε (Answer' op))} (part : σ' → σ) (rest : σ' → ρ)

/-- What holds at the end on the part, when the operations leave the rest alone. -/
theorem always_lift {p : Process Op Answer ε α} {Q : σ → α → Prop} {s : σ'}
    (h : p.always outcomes Q (part s))
    (hpart : ∀ s op s' answer, (s', answer) ∈ outcomes' s (f op) →
      (part s', back op answer) ∈ outcomes (part s) op ∧ rest s' = rest s) :
    (p.lift f back).always outcomes' (fun s' a => Q (part s') a ∧ rest s' = rest s) s := by
  induction p generalizing s with
  | done a => exact ⟨h, rfl⟩
  | call op next ih =>
    intro s' answer hmem
    obtain ⟨hmem', hrest⟩ := hpart s op s' answer hmem
    have hnext := ih (back op answer) (h _ _ hmem')
    rw [hrest] at hnext
    exact hnext

section Lifted

variable {good begins : (op : Op) → Except ε (Answer op) → Prop}
    {good' begins' : (op : Op') → Except ε (Answer' op) → Prop}
  {R : α → Prop} {p : Process Op Answer ε α}

theorem onlyCalls_lift {Q : Op → Prop} {Q' : Op' → Prop} (hp : p.onlyCalls Q)
    (h : ∀ op, Q op → Q' (f op)) : (p.lift f back).onlyCalls Q' := by
  induction p with
  | done a => trivial
  | call op next ih => exact ⟨h op hp.1, fun answer => ih _ (hp.2 _)⟩

theorem onlyReturns_lift (hp : p.onlyReturns R) : (p.lift f back).onlyReturns R := by
  induction p with
  | done a => exact hp
  | call op next ih => exact fun answer => ih _ (hp _)

theorem onlyReturnsIf_lift (hp : p.onlyReturnsIf good R)
    (h : ∀ op answer, good' (f op) answer → good op (back op answer)) :
    (p.lift f back).onlyReturnsIf good' R := by
  induction p with
  | done a => exact hp
  | call op next ih => exact fun answer hgood => ih _ (hp _ (h op answer hgood))

theorem onlyReturnsOnce_lift (hp : p.onlyReturnsOnce good begins R)
    (h : ∀ op answer, good' (f op) answer → good op (back op answer))
    (hbegins : ∀ op answer, begins' (f op) answer → begins op (back op answer)) :
    (p.lift f back).onlyReturnsOnce good' begins' R := by
  induction p with
  | done a => trivial
  | call op next ih =>
    exact fun answer => ⟨fun hb => onlyReturnsIf_lift ((hp _).1 (hbegins op answer hb)) h,
      ih _ (hp _).2⟩

end Lifted

end Process

namespace Async

/-- The same function, as one on the larger state. -/
def lift (x : Async Op Answer ε α) : Async Op' Answer' ε α := ExceptT.mk (Process.lift f back x.run)

variable {f back} {outcomes : σ → (op : Op) → List (σ × Except ε (Answer op))}
  {outcomes' : σ' → (op : Op') → List (σ' × Except ε (Answer' op))} (part : σ' → σ) (rest : σ' → ρ)

theorem always_lift {x : Async Op Answer ε α} {Q : σ → Except ε α → Prop} {s : σ'}
    (h : x.always outcomes Q (part s))
    (hpart : ∀ s op s' answer, (s', answer) ∈ outcomes' s (f op) →
      (part s', back op answer) ∈ outcomes (part s) op ∧ rest s' = rest s) :
    (x.lift f back).always outcomes' (fun s' r => Q (part s') r ∧ rest s' = rest s) s :=
  Process.always_lift part rest h hpart

end Async

end Part

/-! ## In any surroundings

The surroundings may answer an operation by whatever the assumption allows; the process may call an
operation only when the guarantee allows it.  Both may look at what has happened so far. -/

/-- An operation that has been called, with what it has returned or thrown. -/
abbrev Happening (Op : Type) (Answer : Op → Type) (ε : Type) := (op : Op) × Except ε (Answer op)

section Surroundings

variable {Op : Type} {Answer : Op → Type} {ε α β : Type}
  (assumes : List (Happening Op Answer ε) → Happening Op Answer ε → Prop)
  (guarantees : List (Happening Op Answer ε) → Op → Prop)

namespace Process

/-- The process calls operations as guaranteed, and ends in this way. -/
def behaves : Process Op Answer ε α → (List (Happening Op Answer ε) → α → Prop) →
    List (Happening Op Answer ε) → Prop
  | done a, Q, h => Q h a
  | call op next, Q, h =>
      guarantees h op ∧ ∀ answer, assumes h ⟨op, answer⟩ →
        (next answer).behaves Q (h ++ [⟨op, answer⟩])

variable {assumes guarantees}

theorem behaves_bind {p : Process Op Answer ε α} {f : α → Process Op Answer ε β}
    {Q : List (Happening Op Answer ε) → β → Prop} {h : List (Happening Op Answer ε)} :
    (p >>= f).behaves assumes guarantees Q h ↔
      p.behaves assumes guarantees (fun h a => (f a).behaves assumes guarantees Q h) h := by
  induction p generalizing h with
  | done a => exact Iff.rfl
  | call op next ih =>
    exact and_congr_right fun _ => forall_congr' fun answer => imp_congr_right fun _ => ih answer

theorem behaves_congr {p : Process Op Answer ε α} {Q R : List (Happening Op Answer ε) → α → Prop}
    {h : List (Happening Op Answer ε)} (hQR : ∀ h a, Q h a ↔ R h a) :
    p.behaves assumes guarantees Q h ↔ p.behaves assumes guarantees R h := by
  induction p generalizing h with
  | done a => exact hQR h a
  | call op next ih =>
    exact and_congr_right fun _ => forall_congr' fun answer => imp_congr_right fun _ => ih answer

end Process

namespace Async

/-- The function calls operations as guaranteed, and returns or throws in this way. -/
def behaves (x : Async Op Answer ε α) (Q : List (Happening Op Answer ε) → Except ε α → Prop)
    (h : List (Happening Op Answer ε)) : Prop :=
  Process.behaves assumes guarantees x.run Q h

variable {assumes guarantees} {x : Async Op Answer ε α} {h : List (Happening Op Answer ε)}

theorem behaves_pure {a : α} {Q : List (Happening Op Answer ε) → Except ε α → Prop} :
    (pure a : Async Op Answer ε α).behaves assumes guarantees Q h ↔ Q h (.ok a) := Iff.rfl

theorem behaves_await {op : Op} {Q : List (Happening Op Answer ε) → Except ε (Answer op) → Prop} :
    (await op : Async Op Answer ε (Answer op)).behaves assumes guarantees Q h ↔
      guarantees h op ∧ ∀ answer, assumes h ⟨op, answer⟩ → Q (h ++ [⟨op, answer⟩]) answer := Iff.rfl

theorem behaves_bind {f : α → Async Op Answer ε β}
    {Q : List (Happening Op Answer ε) → Except ε β → Prop} :
    (x >>= f).behaves assumes guarantees Q h ↔
      x.behaves assumes guarantees (fun h r =>
        match r with
        | .ok a => (f a).behaves assumes guarantees Q h
        | .error e => Q h (.error e)) h := by
  unfold Async.behaves
  rw [ExceptT.run_bind, Process.behaves_bind]
  exact Process.behaves_congr fun h r => by cases r <;> exact Iff.rfl

theorem behaves_tryCatch {handle : ε → Async Op Answer ε α}
    {Q : List (Happening Op Answer ε) → Except ε α → Prop} :
    (tryCatch x handle).behaves assumes guarantees Q h ↔
      x.behaves assumes guarantees (fun h r =>
        match r with
        | .ok a => Q h (.ok a)
        | .error e => (handle e).behaves assumes guarantees Q h) h := by
  unfold Async.behaves
  show Process.behaves assumes guarantees (x.run >>= fun r => _) Q h ↔ _
  rw [Process.behaves_bind]
  exact Process.behaves_congr fun h r => by cases r <;> exact Iff.rfl

end Async

end Surroundings

/-! ## Interleaved -/

/-- The shared state and the processes that run on it; the place of a process in the list is its
name. -/
structure World (σ Op : Type) (Answer : Op → Type) (ε α : Type) where
  state : σ
  processes : List (Process Op Answer ε α) := []

namespace World

variable {σ Op : Type} {Answer : Op → Type} {ε α κ τ : Type}

section Runs

variable (outcomes : σ → (op : Op) → List (σ × Except ε (Answer op)))
    (program : κ → Process Op Answer ε α)
  (tick : τ → σ → σ) (C : σ → Op → Prop)

/-- One step: a job is taken up, an operation of a process takes effect, or the state changes by
itself.  An operation that changes the state meets the condition. -/
inductive Moves : World σ Op Answer ε α → World σ Op Answer ε α → Prop
  | start (w : World σ Op Answer ε α) (job : κ) :
      Moves w { w with processes := w.processes ++ [program job] }
  | call {w : World σ Op Answer ε α} {i : Nat} {op : Op}
      {next : Except ε (Answer op) → Process Op Answer ε α} {s : σ} {answer : Except ε (Answer op)}
      (hi : w.processes[i]? = some (.call op next))
      (h : (s, answer) ∈ outcomes w.state op) (hC : s ≠ w.state → C w.state op) :
      Moves w { state := s, processes := w.processes.set i (next answer) }
  | tick (w : World σ Op Answer ε α) (t : τ) : Moves w { w with state := tick t w.state }

/-- Any number of steps. -/
def Leads : World σ Op Answer ε α → World σ Op Answer ε α → Prop :=
  Relation.ReflTransGen (Moves outcomes program tick C)

variable {outcomes program tick C}

/-- An invariant that the operations keep when they meet the condition holds after every run. -/
theorem Leads.keeps {I : σ → Prop} {w w' : World σ Op Answer ε α}
    (h : Leads outcomes program tick C w w') (hI : I w.state)
    (hcall : ∀ s op s' answer, I s → C s op → (s', answer) ∈ outcomes s op → I s')
    (htick : ∀ s t, I s → I (tick t s)) : I w'.state := by
  induction h with
  | refl => exact hI
  | @tail w₁ _ _ hmove ih =>
    cases hmove with
    | start job => exact ih
    | @call i op next s answer hi hmem hC =>
      by_cases hs : s = w₁.state
      · exact hs ▸ ih
      · exact hcall _ op s answer ih (hC hs) hmem
    | tick t => exact htick _ t ih

variable (outcomes program tick) in
/-- Any number of steps, each of which meets the condition on the world before and the world after
it. -/
def LeadsBy (K : World σ Op Answer ε α → World σ Op Answer ε α → Prop) :
    World σ Op Answer ε α → World σ Op Answer ε α → Prop :=
  Relation.ReflTransGen fun w w' => Moves outcomes program tick (fun _ _ => True) w w' ∧ K w w'

variable {K : World σ Op Answer ε α → World σ Op Answer ε α → Prop}

/-- An invariant of the state and the processes that the steps keep when they meet the condition. -/
theorem LeadsBy.keeps {I : World σ Op Answer ε α → Prop} {w w' : World σ Op Answer ε α}
    (h : LeadsBy outcomes program tick K w w') (hI : I w)
    (hstep : ∀ w w', I w → Moves outcomes program tick (fun _ _ => True) w w' → K w w' → I w') :
    I w' := by
  induction h with
  | refl => exact hI
  | tail _ hmove ih => exact hstep _ _ ih hmove.1 hmove.2

theorem LeadsBy.leads {w w' : World σ Op Answer ε α} (h : LeadsBy outcomes program tick K w w') :
    Leads outcomes program tick (fun _ _ => True) w w' := by
  induction h with
  | refl => exact .refl
  | tail _ hmove ih => exact ih.tail hmove.1

theorem LeadsBy.mono {K' : World σ Op Answer ε α → World σ Op Answer ε α → Prop}
    {w w' : World σ Op Answer ε α} (hK : ∀ w w', K w w' → K' w w')
    (h : LeadsBy outcomes program tick K w w') : LeadsBy outcomes program tick K' w w' := by
  induction h with
  | refl => exact .refl
  | tail _ hmove ih => exact ih.tail ⟨hmove.1, hK _ _ hmove.2⟩

end Runs

/-! ### Schedules -/

/-- What happens next: a job is taken up, a process gets the outcome with this number, or the state
changes by itself. -/
inductive Turn (κ τ : Type) where
  | start (job : κ)
  | call (process outcome : Nat)
  | tick (t : τ)

section Schedules

variable (outcomes : σ → (op : Op) → List (σ × Except ε (Answer op)))
    (program : κ → Process Op Answer ε α)
  (tick : τ → σ → σ) (C : σ → Op → Prop) [∀ s op, Decidable (C s op)]

/-- The world after a turn, unless there is nothing to do in it or the operation does not meet the
condition. -/
def turn (w : World σ Op Answer ε α) : Turn κ τ → Option (World σ Op Answer ε α)
  | .start job => some { w with processes := w.processes ++ [program job] }
  | .call i k =>
      match w.processes[i]? with
      | some (.call op next) =>
          if C w.state op then
            ((outcomes w.state op)[k]?).map fun (s, answer) =>
              { state := s, processes := w.processes.set i (next answer) }
          else none
      | _ => none
  | .tick t => some { w with state := tick t w.state }

/-- The turns one after another. -/
def plays : List (Turn κ τ) → World σ Op Answer ε α → Option (World σ Op Answer ε α)
  | [], w => some w
  | t :: turns, w => (w.turn outcomes program tick C t).bind (plays turns)

/-- The turns one after another, if each meets the condition on the world before and the world after
it. -/
def playsBy (K : World σ Op Answer ε α → World σ Op Answer ε α → Prop)
    [∀ w w', Decidable (K w w')] :
    List (Turn κ τ) → World σ Op Answer ε α → Option (World σ Op Answer ε α)
  | [], w => some w
  | t :: turns, w => (w.turn outcomes program tick (fun _ _ => True) t).bind fun w' =>
      if K w w' then playsBy K turns w' else none

variable {outcomes program tick C}

theorem Moves.of_turn {w w' : World σ Op Answer ε α} {t : Turn κ τ}
    (h : w.turn outcomes program tick C t = some w') : Moves outcomes program tick C w w' := by
  cases t with
  | start job =>
    cases h
    exact .start w job
  | call i k =>
    simp only [turn] at h
    split at h
    · rename_i op next hi
      split at h
      · rename_i hC
        obtain ⟨⟨s, answer⟩, hk, rfl⟩ := Option.map_eq_some_iff.1 h
        exact .call hi (List.mem_of_getElem? hk) fun _ => hC
      · cases h
    · cases h
  | tick t =>
    cases h
    exact .tick w t

theorem Leads.of_plays {turns : List (Turn κ τ)} {w w' : World σ Op Answer ε α}
    (h : w.plays outcomes program tick C turns = some w') : Leads outcomes program tick C w w' := by
  induction turns generalizing w with
  | nil =>
    cases h
    exact .refl
  | cons t turns ih =>
    obtain ⟨w₁, hw₁, hrest⟩ := Option.bind_eq_some_iff.1 h
    exact .head (.of_turn hw₁) (ih hrest)

theorem LeadsBy.of_playsBy {K : World σ Op Answer ε α → World σ Op Answer ε α → Prop}
    [∀ w w', Decidable (K w w')] {turns : List (Turn κ τ)} {w w' : World σ Op Answer ε α}
    (h : w.playsBy outcomes program tick K turns = some w') :
    LeadsBy outcomes program tick K w w' := by
  induction turns generalizing w with
  | nil =>
    cases h
    exact .refl
  | cons t turns ih =>
    obtain ⟨w₁, hw₁, hrest⟩ := Option.bind_eq_some_iff.1 h
    split at hrest
    · rename_i hK
      exact .head ⟨.of_turn hw₁, hK⟩ (ih hrest)
    · cases hrest

end Schedules

end World
