import NexusWorkflow.Lib.Optimistic

/-!
# Interleaved programs

Programs of any kind on a shared state, not all of them guarded by one version.  A commit may have
to meet a condition on the state that it changes and on the states that it has seen.  What is proved
of a run rests on one rule: if every commit keeps an invariant of the state and relates the state
before it to the one after it, by a preorder, then each state that a session has seen is related to
the later ones and to the present one (`Leads.kept`).
-/

/-! ## The answers to the queries -/

namespace Reading

variable {σ α β : Type}

/-- With these answers to its queries, the first one first, the computation ends in `a`. -/
inductive Gives : Reading σ α → List σ → α → Prop
  | done (a : α) : Gives (done a) [] a
  | query {next : σ → Reading σ α} {s : σ} {seen : List σ} {a : α} (h : Gives (next s) seen a) :
      Gives (query next) (s :: seen) a

theorem Gives.ends {p : Reading σ α} {seen : List σ} {a : α} (h : Gives p seen a) : Ends p a := by
  induction h with
  | done a => exact .done a
  | query _ ih => exact .query _ ih

theorem gives_done {a b : α} {seen : List σ} (h : Gives (done b : Reading σ α) seen a) :
    a = b ∧ seen = [] := by
  cases h
  exact ⟨rfl, rfl⟩

theorem gives_ask {f : σ → α} {seen : List σ} {a : α} (h : Gives (ask f) seen a) :
    ∃ s, seen = [s] ∧ a = f s := by
  cases h with
  | @query next s seen a h =>
    obtain ⟨ha, hseen⟩ := gives_done h
    exact ⟨s, by rw [hseen], ha⟩

/-- The answers to the first part come first. -/
theorem gives_bind {p : Reading σ α} {f : α → Reading σ β} {seen : List σ} {b : β}
    (h : Gives (p >>= f) seen b) :
    ∃ first rest a, seen = first ++ rest ∧ Gives p first a ∧ Gives (f a) rest b := by
  induction p generalizing seen with
  | done a => exact ⟨[], seen, a, rfl, .done a, h⟩
  | query next ih =>
    cases h with
    | query h =>
      obtain ⟨first, rest, a, hseen, hfirst, hrest⟩ := ih _ h
      exact ⟨_ :: first, rest, a, by rw [hseen]; rfl, .query hfirst, hrest⟩

/-- When the state stays as it is, the computation gives what it gives alone. -/
theorem Gives.alone {p : Reading σ α} {seen : List σ} {a : α} (h : Gives p seen a) {s : σ}
    (hseen : ∀ x ∈ seen, x = s) : p.alone s = a := by
  induction h with
  | done a => rfl
  | @query next x seen a _ ih =>
    obtain rfl := hseen x List.mem_cons_self
    exact ih fun y hy => hseen y (List.mem_cons_of_mem _ hy)

variable {τ : Type}

/-- The computation on a part of the state. -/
def within (f : τ → σ) : Reading σ α → Reading τ α
  | done a => done a
  | query next => query fun t => (next (f t)).within f

theorem gives_within {f : τ → σ} {p : Reading σ α} {seen : List τ} {a : α}
    (h : Gives (p.within f) seen a) : Gives p (seen.map f) a := by
  induction p generalizing seen with
  | done b =>
    obtain ⟨rfl, rfl⟩ := gives_done h
    exact .done _
  | query next ih =>
    cases h with
    | query h => exact .query (ih _ h)

end Reading

/-! ## Runs under a condition -/

namespace Shared

variable {ι κ σ : Type} [DecidableEq ι] (program : κ → Program σ) (C : σ → κ → List σ → Prop)

/-- A step of one actor; a job that commits meets the condition. -/
def Moves (S S' : Shared ι κ σ) : Prop :=
  Step program S S' ∧ ∀ i job rest seen, S.sessions i = some ⟨job, rest, seen⟩ →
    S'.sessions i = none → S'.committed = S.committed ++ [job] → C S.state job seen

/-- Any number of steps. -/
def Leads : Shared ι κ σ → Shared ι κ σ → Prop := Relation.ReflTransGen (Moves program C)

/-- Nothing has happened yet. -/
def fresh (s : σ) : Shared ι κ σ := ⟨s, fun _ => none, []⟩

/-- The states that a session has seen, and the present one after them, go onward; and what is left
of its program ends as the whole does. -/
structure Traced (R : σ → σ → Prop) (now : σ) (session : Session κ σ) : Prop where
  onward : (session.seen ++ [now]).Pairwise R
  whole : ∀ more a, Reading.Gives session.rest more a →
    Reading.Gives (program session.job) (session.seen ++ more) a

/-- A commit as it is made: the answers that its job has got, and what comes of the state. -/
structure Commits (R : σ → σ → Prop) (now : σ) (job : κ) (seen : List σ) (txn : Transaction σ)
    (new : σ) : Prop where
  allowed : C now job seen
  gives : Reading.Gives (program job) seen (some txn)
  onward : (seen ++ [now]).Pairwise R
  changes : txn now = some new

/-- Every commit keeps the invariant and goes onward. -/
structure Kept (I : σ → Prop) (R : σ → σ → Prop) : Prop where
  refl : ∀ s, R s s
  trans : ∀ {s t u}, R s t → R t u → R s u
  commit : ∀ {now new : σ} {job : κ} {seen : List σ} {txn : Transaction σ}, I now →
    Commits program C R now job seen txn new → I new ∧ R now new

variable {program C} {I : σ → Prop} {R : σ → σ → Prop}

theorem Commits.of_mem {now new : σ} {job : κ} {seen : List σ} {txn : Transaction σ}
    (h : Commits program C R now job seen txn new) {s : σ} (hs : s ∈ seen) : R s now :=
  (List.pairwise_append.1 h.onward).2.2 s hs now (List.mem_singleton_self now)

namespace Traced

variable {now new : σ} {session : Session κ σ}

theorem start (R : σ → σ → Prop) (now : σ) (job : κ) :
    Traced program R now ⟨job, program job, []⟩ where
  onward := List.pairwise_singleton R now
  whole _ _ h := h

theorem read (hrefl : ∀ s, R s s) {job : κ} {next : σ → Program σ} {seen : List σ}
    (h : Traced program R now ⟨job, .query next, seen⟩) :
    Traced program R now ⟨job, next now, seen ++ [now]⟩ where
  onward := by
    refine List.pairwise_append.2 ⟨h.onward, List.pairwise_singleton R now, fun s hs t ht => ?_⟩
    rw [List.mem_singleton.1 ht]
    rcases List.mem_append.1 hs with hs | hs
    · exact (List.pairwise_append.1 h.onward).2.2 s hs now (List.mem_singleton_self now)
    · rw [List.mem_singleton.1 hs]
      exact hrefl now
  whole more a hgives := by
    have hwhole := h.whole (now :: more) a (.query hgives)
    rwa [List.append_assoc]

/-- The state goes on. -/
theorem trans (htrans : ∀ {s t u}, R s t → R t u → R s u) (h : Traced program R now session)
    (hR : R now new) : Traced program R new session where
  onward := by
    obtain ⟨hseen, -, hlast⟩ := List.pairwise_append.1 h.onward
    refine List.pairwise_append.2 ⟨hseen, List.pairwise_singleton R new, fun s hs t ht => ?_⟩
    rw [List.mem_singleton.1 ht]
    exact htrans (hlast s hs now (List.mem_singleton_self now)) hR
  whole := h.whole

end Traced

/-- The invariant holds, and all sessions are traced. -/
structure Sound (program : κ → Program σ) (I : σ → Prop) (R : σ → σ → Prop) (S : Shared ι κ σ) :
    Prop where
  state : I S.state
  traced : ∀ i session, S.sessions i = some session → Traced program R S.state session

omit [DecidableEq ι] in
theorem Sound.fresh {s : σ} (h : I s) : Sound program I R (fresh s : Shared ι κ σ) := ⟨h, nofun⟩

theorem Sound.setSession {S : Shared ι κ σ} (h : Sound program I R S) {i : ι}
    {session : Option (Session κ σ)} (hs : ∀ x, session = some x → Traced program R S.state x) :
    Sound program I R (S.setSession i session) where
  state := h.state
  traced j x hx := by
    by_cases hj : j = i
    · subst hj
      exact hs x (by simpa [Shared.setSession] using hx)
    · exact h.traced j x (by simpa [Shared.setSession, hj] using hx)

omit [DecidableEq ι] in
theorem committed_ne {S : Shared ι κ σ} {job : κ} : S.committed ≠ S.committed ++ [job] := by
  intro h
  have hlength := congrArg List.length h
  simp at hlength

/-- What a step is, seen from the shared state. -/
theorem Moves.cases {S S' : Shared ι κ σ} (hS : Sound program I R S) (h : Moves program C S S') :
    S'.state = S.state ∧ S'.committed = S.committed ∨
      ∃ job seen txn, S'.committed = S.committed ++ [job] ∧
        Commits program C R S.state job seen txn S'.state := by
  obtain ⟨hstep, hC⟩ := h
  cases hstep with
  | start _ _ _ | read _ _ | refuse _ _ _ | stop _ _ => exact .inl ⟨rfl, rfl⟩
  | @commit i job txn seen hi new hnew =>
    have htraced := hS.traced i _ hi
    have hgives := htraced.whole [] _ (.done _)
    rw [List.append_nil] at hgives
    exact .inr ⟨job, seen, txn, rfl, hC i job _ seen hi (sessions_setSession S i none) rfl, hgives,
      htraced.onward, hnew⟩

theorem Moves.kept {S S' : Shared ι κ σ} (hkept : Kept program C I R) (hS : Sound program I R S)
    (h : Moves program C S S') : Sound program I R S' ∧ R S.state S'.state := by
  have hcases := h.cases hS
  obtain ⟨hstep, hC⟩ := h
  cases hstep with
  | start i _ job =>
    refine ⟨hS.setSession fun x hx => ?_, hkept.refl _⟩
    cases hx
    exact .start R S.state job
  | read i hi =>
    refine ⟨hS.setSession fun x hx => ?_, hkept.refl _⟩
    cases hx
    exact (hS.traced i _ hi).read hkept.refl
  | refuse i _ _ => exact ⟨hS.setSession (by simp), hkept.refl _⟩
  | stop i _ => exact ⟨hS.setSession (by simp), hkept.refl _⟩
  | @commit i job txn seen hi new hnew =>
    rcases hcases with ⟨-, hsame⟩ | ⟨job', seen', txn', -, hcommits⟩
    · exact absurd hsame.symm committed_ne
    · obtain ⟨hI, hR⟩ := hkept.commit hS.state hcommits
      refine ⟨⟨hI, fun j x hx => ?_⟩, hR⟩
      by_cases hj : j = i
      · subst hj
        simp [Shared.setSession] at hx
      · have hx' : S.sessions j = some x := by simpa [Shared.setSession, hj] using hx
        exact (hS.traced j x hx').trans hkept.trans hR

/-- In a run, the invariant is kept and the state goes onward. -/
theorem Leads.kept {S S' : Shared ι κ σ} (hkept : Kept program C I R) (hS : Sound program I R S)
    (h : Leads program C S S') : Sound program I R S' ∧ R S.state S'.state := by
  induction h with
  | refl => exact ⟨hS, hkept.refl _⟩
  | tail _ hmove ih =>
    obtain ⟨hsound, hR⟩ := hmove.kept hkept ih.1
    exact ⟨hsound, hkept.trans ih.2 hR⟩

/-! ## Without interruption -/

/-- The condition does not come into steps that commit nothing. -/
theorem Moves.of_step {S S' : Shared ι κ σ} (h : Step program S S')
    (hsame : S'.committed = S.committed) : Moves program C S S' :=
  ⟨h, fun _ _ _ _ _ _ hjob => absurd (hsame.symm.trans hjob) committed_ne⟩

theorem Leads.readOn {S₀ S : Shared ι κ σ} (h : Leads program C S₀ S) {i : ι} {job : κ}
    (rest : Program σ) {seen : List σ} (hi : S.sessions i = some ⟨job, rest, seen⟩)
    (hseen : ∀ s ∈ seen, s = S.state) :
    ∃ seen', (∀ s ∈ seen', s = S.state) ∧
      Leads program C S₀ (S.setSession i (some ⟨job, .done (rest.alone S.state), seen'⟩)) := by
  induction rest generalizing S seen with
  | done txn => exact ⟨seen, hseen, (setSession_self hi).symm ▸ h⟩
  | query next ih =>
    have hread := h.tail (.of_step (.read i hi) rfl)
    have hmore : ∀ s ∈ seen ++ [S.state], s = S.state := fun s hs =>
      (List.mem_append.1 hs).elim (hseen s) List.mem_singleton.1
    obtain ⟨seen', hseen', hend⟩ := ih S.state hread (sessions_setSession S i _) hmore
    rw [setSession_setSession] at hend
    exact ⟨seen', hseen', hend⟩

/-- A job that is not interrupted commits what it does alone. -/
theorem Leads.uninterrupted {S₀ S : Shared ι κ σ} (h : Leads program C S₀ S) {i : ι}
    (hidle : S.sessions i = none) (job : κ)
    (hC : ∀ seen, (∀ s ∈ seen, s = S.state) → C S.state job seen) {new : σ}
    (hnew : (program job).perform S.state = some new) :
    Leads program C S₀ { S with state := new, committed := S.committed ++ [job] } := by
  obtain ⟨txn, htxn, hnew⟩ := Option.bind_eq_some_iff.1 hnew
  have hstart : Leads program C S₀ (S.setSession i (some ⟨job, program job, []⟩)) :=
    h.tail (.of_step (.start i hidle job) rfl)
  obtain ⟨seen, hseen, hread⟩ := hstart.readOn (program job) (sessions_setSession S i _) nofun
  have halone : (program job).alone (S.setSession i (some ⟨job, program job, []⟩)).state =
      some txn :=
    htxn
  rw [halone, setSession_setSession] at hread
  have hcommit := hread.tail ⟨.commit i (sessions_setSession S i _) hnew,
    fun j job' rest seen' hj hnone hjob => by
      by_cases hji : j = i
      · subst hji
        rw [sessions_setSession] at hj
        cases hj
        exact hC seen hseen
      · have hsame : S.sessions j = none := by simpa [Shared.setSession, hji] using hnone
        simp [Shared.setSession, hji, hsame] at hj⟩
  rwa [setSession_setSession, setSession_self hidle] at hcommit

/-- The jobs one after the other, as long as they meet the condition and commit. -/
def performs (program : κ → Program σ) (C : σ → κ → Prop) [∀ s job, Decidable (C s job)] :
    List κ → σ → Option σ
  | [], s => some s
  | job :: jobs, s =>
      if C s job then ((program job).perform s).bind (performs program C jobs) else none

theorem Leads.performs {C₀ : σ → κ → Prop} [∀ s job, Decidable (C₀ s job)] [Inhabited ι]
    {S₀ : Shared ι κ σ} {s s' : σ} {done : List κ}
    (hC : ∀ s job seen, (∀ x ∈ seen, x = s) → C₀ s job → C s job seen) (jobs : List κ)
    (h : Leads program C S₀ ⟨s, fun _ => none, done⟩)
    (hjobs : Shared.performs program C₀ jobs s = some s') :
    Leads program C S₀ ⟨s', fun _ => none, done ++ jobs⟩ := by
  induction jobs generalizing s done with
  | nil =>
    cases hjobs
    rwa [List.append_nil]
  | cons job jobs ih =>
    unfold Shared.performs at hjobs
    split at hjobs
    · rename_i hjob
      obtain ⟨mid, hmid, hjobs⟩ := Option.bind_eq_some_iff.1 hjobs
      have hstep := h.uninterrupted (i := default) rfl job
          (fun seen hseen => hC s job seen hseen hjob)
        hmid
      have hrest := ih hstep hjobs
      rwa [List.append_assoc] at hrest
    · cases hjobs

end Shared
