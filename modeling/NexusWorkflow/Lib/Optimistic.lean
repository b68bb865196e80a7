import Mathlib

/-!
# Optimistic concurrency

Any number of actors share a state.  Each does jobs: the program of a job reads the state one query
after the other, so that two queries may see two different states, and ends in at most one atomic
transaction, which may be refused.  `Guarded` programs tie their transaction to the version that
their first query saw.  Then the interleaved run is serial: the shared state is what the committed
jobs give when each runs alone, in the order of the commits (`Reaches.serial`), and a job that saw
two versions cannot commit (`Reaches.refused`).
-/

/-! ## Programs -/

/-- A computation that queries a state of type `σ`, which may change between two queries. -/
inductive Reading (σ α : Type) where
  | done (a : α)
  | query (next : σ → Reading σ α)

namespace Reading

variable {σ α β : Type}

def bind : Reading σ α → (α → Reading σ β) → Reading σ β
  | done a, f => f a
  | query next, f => query fun s => (next s).bind f

instance : Monad (Reading σ) where
  pure := done
  bind := bind

/-- One query. -/
def ask (f : σ → α) : Reading σ α := query fun s => done (f s)

/-- The result when the state stays as it is. -/
def alone : Reading σ α → σ → α
  | done a, _ => a
  | query next, s => (next s).alone s

/-- The computation goes on with a query. -/
def asks : Reading σ α → Bool
  | done _ => false
  | query _ => true

/-- What is left of the computation after one query. -/
def resume : Reading σ α → σ → Reading σ α
  | done a, _ => done a
  | query next, s => next s

/-- The computation can end in `a`, for some answers to its queries. -/
inductive Ends : Reading σ α → α → Prop
  | done (a : α) : Ends (done a) a
  | query {next : σ → Reading σ α} {a : α} (s : σ) (h : Ends (next s) a) : Ends (query next) a

@[simp] theorem alone_done (a : α) (s : σ) : (done a : Reading σ α).alone s = a := rfl

@[simp] theorem alone_pure (a : α) (s : σ) : (pure a : Reading σ α).alone s = a := rfl

@[simp] theorem alone_ask (f : σ → α) (s : σ) : (ask f).alone s = f s := rfl

@[simp] theorem alone_bind (p : Reading σ α) (f : α → Reading σ β) (s : σ) :
    (p >>= f).alone s = (f (p.alone s)).alone s := by
  induction p with
  | done a => rfl
  | query next ih => exact ih s

theorem ends_done {a b : α} (h : Ends (done b : Reading σ α) a) : a = b := by
  cases h
  rfl

theorem ends_bind {p : Reading σ α} {f : α → Reading σ β} {b : β} (h : Ends (p >>= f) b) :
    ∃ a, Ends p a ∧ Ends (f a) b := by
  induction p with
  | done a => exact ⟨a, .done a, h⟩
  | query next ih =>
    cases h with
    | query s h =>
      obtain ⟨a, ha, hb⟩ := ih s h
      exact ⟨a, .query s ha, hb⟩

end Reading

/-- An atomic change of the state; `none` is a refusal, which changes nothing. -/
abbrev Transaction (σ : Type) := σ → Option σ

/-- A program ends in a transaction, or in none when it has nothing to write. -/
abbrev Program (σ : Type) := Reading σ (Option (Transaction σ))

/-- One program run alone, its transaction included. -/
def Program.perform {σ : Type} (p : Program σ) (s : σ) : Option σ := (p.alone s).bind fun txn =>
    txn s

/-- A transaction of `p` succeeds only on the version that the first query of `p` saw, and leaves a
higher one behind.  A version never falls, so states of lower versions need not be looked at. -/
def Program.Guarded {σ : Type} (version : σ → Nat) : Program σ → Prop
  | .done txn => txn = none
  | .query next => ∀ s txn, Reading.Ends (next s) (some txn) → ∀ now new, version s ≤ version now →
      txn now = some new → version now = version s ∧ version now < version new

/-! ## Actors -/

/-- What an actor is at: the job, what is left of its program, and the states that its queries have
seen, the first one first. -/
structure Session (κ σ : Type) where
  job : κ
  rest : Program σ
  seen : List σ

/-- The shared state, the sessions of the actors, and the jobs that have committed, in order. -/
structure Shared (ι κ σ : Type) where
  state : σ
  sessions : ι → Option (Session κ σ)
  committed : List κ

namespace Shared

variable {ι κ σ : Type} [DecidableEq ι] (program : κ → Program σ)

def setSession (S : Shared ι κ σ) (i : ι) (session : Option (Session κ σ)) : Shared ι κ σ :=
  { S with sessions := Function.update S.sessions i session }

/-- One step of one actor. -/
inductive Step : Shared ι κ σ → Shared ι κ σ → Prop
  | start {S : Shared ι κ σ} (i : ι) (hidle : S.sessions i = none) (job : κ) :
      Step S (S.setSession i (some ⟨job, program job, []⟩))
  | read {S : Shared ι κ σ} (i : ι) {job : κ} {next : σ → Program σ} {seen : List σ}
      (hi : S.sessions i = some ⟨job, .query next, seen⟩) :
      Step S (S.setSession i (some ⟨job, next S.state, seen ++ [S.state]⟩))
  | commit {S : Shared ι κ σ} (i : ι) {job : κ} {txn : Transaction σ} {seen : List σ}
      (hi : S.sessions i = some ⟨job, .done (some txn), seen⟩) {new : σ}
      (hnew : txn S.state = some new) :
      Step S { S.setSession i none with state := new, committed := S.committed ++ [job] }
  | refuse {S : Shared ι κ σ} (i : ι) {job : κ} {txn : Transaction σ} {seen : List σ}
      (hi : S.sessions i = some ⟨job, .done (some txn), seen⟩) (hrefused : txn S.state = none) :
      Step S (S.setSession i none)
  | stop {S : Shared ι κ σ} (i : ι) {job : κ} {seen : List σ}
      (hi : S.sessions i = some ⟨job, .done none, seen⟩) : Step S (S.setSession i none)

/-- Any number of steps, of any actors in any order, from the state `s` and no session. -/
inductive Reaches (s : σ) : Shared ι κ σ → Prop
  | start : Reaches s ⟨s, fun _ => none, []⟩
  | step {S S' : Shared ι κ σ} (h : Reaches s S) (hstep : Step program S S') : Reaches s S'

/-! ## What a session knows -/

/-- The session has read nothing yet, or the version is not below the one that its first query saw;
and at that version the state is still the one seen then, so that the rest of the program ends as
the whole would alone. -/
def Knows (version : σ → Nat) (now : σ) (session : Session κ σ) : Prop :=
  match session.seen with
  | [] => session.rest = program session.job
  | first :: _ =>
      (∃ next, program session.job = .query next ∧
        ∀ txn, Reading.Ends session.rest (some txn) → Reading.Ends (next first) (some txn)) ∧
      (∀ s ∈ session.seen, version first ≤ version s ∧ version s ≤ version now) ∧
      (version now = version first → now = first ∧
        session.rest.alone now = (program session.job).alone now)

variable {program} {version : σ → Nat}

theorem Knows.read {now : σ} {job : κ} {next : σ → Program σ} {seen : List σ}
    (h : Knows program version now ⟨job, .query next, seen⟩) :
    Knows program version now ⟨job, next now, seen ++ [now]⟩ := by
  cases seen with
  | nil =>
    have hp : Reading.query next = program job := h
    refine ⟨⟨next, hp.symm, fun _ => id⟩, ?_, fun _ => ⟨rfl, ?_⟩⟩
    · simp
    · show (next now).alone now = (program job).alone now
      rw [← hp]
      rfl
  | cons first seen =>
    obtain ⟨⟨next', hp, hends⟩, hseen, hsame⟩ := h
    refine ⟨⟨next', hp, fun txn htxn => hends txn (.query now htxn)⟩, ?_, fun hv => ?_⟩
    · intro s hs
      rcases List.mem_append.1 (show s ∈ (first :: seen) ++ [now] from hs) with hs | hs
      · exact hseen s hs
      · rw [List.mem_singleton.1 hs]
        exact ⟨(hseen first List.mem_cons_self).2, Nat.le_refl _⟩
    · exact hsame hv

/-- A higher version keeps what is known of a session. -/
theorem Knows.raise {now new : σ} {session : Session κ σ} (h : Knows program version now session)
    (hlt : version now < version new) : Knows program version new session := by
  unfold Knows at h ⊢
  split at h <;> rename_i hseen
  · exact h
  · obtain ⟨hnext, hbetween, -⟩ := h
    refine ⟨hnext, fun s hs => ?_, fun hv => ?_⟩
    · have hs := hbetween s hs
      omega
    · have hfirst := (hbetween _ (hseen ▸ List.mem_cons_self)).2
      omega

/-- A guarded job that can commit has seen the state as it is. -/
theorem Knows.commit {now new : σ} {job : κ} {txn : Transaction σ} {seen : List σ}
    (hguard : (program job).Guarded version)
    (h : Knows program version now ⟨job, .done (some txn), seen⟩) (hnew : txn now = some new) :
    (program job).perform now = some new ∧ version now < version new ∧
      ∀ s ∈ seen, version s = version now := by
  cases seen with
  | nil =>
    have hdone : Reading.done (some txn) = program job := h
    rw [← hdone] at hguard
    cases hguard
  | cons first seen =>
    obtain ⟨⟨next, hnext, hends⟩, hbetween, hsame⟩ := h
    rw [show program job = .query next from hnext] at hguard
    have hfirst := hbetween first List.mem_cons_self
    obtain ⟨hv, hlt⟩ := hguard first txn (hends txn (.done _)) now new hfirst.2 hnew
    refine ⟨?_, hlt, fun s hs => ?_⟩
    · have halone : some txn = (program job).alone now := (hsame hv).2
      unfold Program.perform
      rw [← halone]
      exact hnew
    · have hs := hbetween s hs
      omega

/-! ## Runs -/

/-- What is known of all sessions. -/
def Informed (program : κ → Program σ) (version : σ → Nat) (S : Shared ι κ σ) : Prop :=
  ∀ i session, S.sessions i = some session → Knows program version S.state session

theorem Informed.setSession {S : Shared ι κ σ} (h : S.Informed program version) {i : ι}
    {session : Option (Session κ σ)}
    (hs : ∀ x, session = some x → Knows program version S.state x) :
    (S.setSession i session).Informed program version := by
  intro j x hx
  by_cases hj : j = i
  · subst hj
    exact hs x (by simpa [Shared.setSession] using hx)
  · exact h j x (by simpa [Shared.setSession, hj] using hx)

theorem Step.informed {S S' : Shared ι κ σ} (hguard : ∀ job, (program job).Guarded version)
    (h : S.Informed program version) (hstep : Step program S S') : S'.Informed program version := by
  cases hstep with
  | start i _ job =>
    refine h.setSession fun x hx => ?_
    cases hx
    exact (rfl : program job = program job)
  | read i hi =>
    refine h.setSession fun x hx => ?_
    cases hx
    exact (h i _ hi).read
  | commit i hi hnew =>
    have hlt := ((h i _ hi).commit (hguard _) hnew).2.1
    intro j x hx
    by_cases hj : j = i
    · subst hj
      simp [Shared.setSession] at hx
    · have hx' : S.sessions j = some x := by simpa [Shared.setSession, hj] using hx
      exact (h j x hx').raise hlt
  | refuse i _ _ => exact h.setSession (by simp)
  | stop i _ => exact h.setSession (by simp)

theorem Reaches.informed {s : σ} {S : Shared ι κ σ} (hguard : ∀ job, (program job).Guarded version)
    (h : Reaches program s S) : S.Informed program version := by
  induction h with
  | start => exact fun _ _ h => by cases h
  | step _ hstep ih => exact hstep.informed hguard ih

/-- The committed jobs, each run alone and one after the other, give the shared state. -/
theorem Reaches.serial {s : σ} {S : Shared ι κ σ} (hguard : ∀ job, (program job).Guarded version)
    (h : Reaches program s S) :
    S.committed.foldlM (fun now job => (program job).perform now) s = some S.state := by
  induction h with
  | start => rfl
  | step h hstep ih =>
    cases hstep with
    | start _ _ _ | read _ _ | refuse _ _ _ | stop _ _ => exact ih
    | commit i hi hnew =>
      have hperform := ((h.informed hguard i _ hi).commit (hguard _) hnew).1
      simp [List.foldlM_append, ih, hperform]

/-- A job that has seen two versions is refused. -/
theorem Reaches.refused {s : σ} {S : Shared ι κ σ} (hguard : ∀ job, (program job).Guarded version)
    (h : Reaches program s S) {i : ι} {session : Session κ σ} (hi : S.sessions i = some session)
    {s₁ s₂ : σ} (h₁ : s₁ ∈ session.seen) (h₂ : s₂ ∈ session.seen) (hne : version s₁ ≠ version s₂)
    {txn : Transaction σ} (hrest : session.rest = .done (some txn)) : txn S.state = none := by
  have hknows := h.informed hguard i _ hi
  obtain ⟨job, rest, seen⟩ := session
  subst hrest
  cases hnew : txn S.state with
  | none => rfl
  | some new =>
    have hsame := (hknows.commit (hguard _) hnew).2.2
    exact absurd ((hsame s₁ h₁).trans (hsame s₂ h₂).symm) hne

/-! ## Without interruption -/

theorem setSession_self {S : Shared ι κ σ} {i : ι} {session : Option (Session κ σ)}
    (h : S.sessions i = session) : S.setSession i session = S := by
  unfold setSession
  rw [← h, Function.update_eq_self]

theorem sessions_setSession (S : Shared ι κ σ) (i : ι) (session : Option (Session κ σ)) :
    (S.setSession i session).sessions i = session := by
  simp [setSession]

theorem setSession_setSession (S : Shared ι κ σ) (i : ι) (x y : Option (Session κ σ)) :
    (S.setSession i x).setSession i y = S.setSession i y := by
  simp [setSession]

/-- An actor that is not interrupted reads on until its program is done. -/
theorem Reaches.readOn {s : σ} {S : Shared ι κ σ} (h : Reaches program s S) {i : ι} {job : κ}
    (rest : Program σ) {seen : List σ} (hi : S.sessions i = some ⟨job, rest, seen⟩) :
    ∃ seen', seen ⊆ seen' ∧ (rest.asks → S.state ∈ seen') ∧
      Reaches program s (S.setSession i (some ⟨job, .done (rest.alone S.state), seen'⟩)) := by
  induction rest generalizing S seen with
  | done txn => exact ⟨seen, List.Subset.refl _, nofun, (setSession_self hi).symm ▸ h⟩
  | query next ih =>
    obtain ⟨seen', hsub, -, hend⟩ := ih S.state (h.step (.read i hi)) (sessions_setSession S i _)
    rw [setSession_setSession] at hend
    obtain ⟨hseen, hnow⟩ := List.append_subset.1 hsub
    exact ⟨seen', hseen, fun _ => hnow List.mem_cons_self, hend⟩

/-- A job that is not interrupted commits what it does alone. -/
theorem Reaches.uninterrupted {s : σ} {S : Shared ι κ σ} (h : Reaches program s S) {i : ι}
    (hidle : S.sessions i = none) (job : κ) {new : σ}
    (hnew : (program job).perform S.state = some new) :
    Reaches program s { S with state := new, committed := S.committed ++ [job] } := by
  obtain ⟨txn, htxn, hnew⟩ := Option.bind_eq_some_iff.1 hnew
  obtain ⟨seen, -, -, hread⟩ := (h.step (.start i hidle job)).readOn (program job)
    (sessions_setSession S i _)
  have halone : (program job).alone (S.setSession i (some ⟨job, program job, []⟩)).state =
      some txn :=
    htxn
  rw [halone, setSession_setSession] at hread
  have hcommit := hread.step (.commit i (sessions_setSession S i _) hnew)
  rwa [setSession_setSession, setSession_self hidle] at hcommit

/-- A job is overtaken: after its first query another actor's job commits, and the rest of its
queries see what that one left behind. -/
theorem Reaches.overtaken {s : σ} {S : Shared ι κ σ} (h : Reaches program s S) {i j : ι}
    (hne : j ≠ i) (hi : S.sessions i = none) (hj : S.sessions j = none) {job other : κ}
    (hasks : (program job).asks) (hmore : ((program job).resume S.state).asks) {new : σ}
    (hnew : (program other).perform S.state = some new) :
    ∃ seen, S.state ∈ seen ∧ new ∈ seen ∧ Reaches program s
      (({ S with state := new, committed := S.committed ++ [other] } : Shared ι κ σ).setSession i
        (some ⟨job, .done (((program job).resume S.state).alone new), seen⟩)) := by
  obtain ⟨first, hfirst⟩ : ∃ first, program job = .query first := by
    cases hp : program job with
    | done txn => simp [hp, Reading.asks] at hasks
    | query first => exact ⟨first, rfl⟩
  have hbegun := h.step (.start i hi job)
  rw [hfirst] at hbegun hmore ⊢
  have hread := hbegun.step (.read i (sessions_setSession S i _))
  rw [setSession_setSession] at hread
  have hidle : (S.setSession i (some ⟨job, first S.state, [S.state]⟩)).sessions j = none := by
    simpa [setSession, hne] using hj
  have hother := hread.uninterrupted hidle other hnew
  obtain ⟨seen, hseen, hnow, hend⟩ := hother.readOn (first S.state)
    (sessions_setSession S i (some ⟨job, first S.state, [S.state]⟩))
  refine ⟨seen, hseen List.mem_cons_self, hnow hmore, ?_⟩
  simpa [setSession, Reading.resume] using hend

end Shared
