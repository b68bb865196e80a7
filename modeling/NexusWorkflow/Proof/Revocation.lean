import NexusWorkflow.Proof.LastAdmin

/-!
# Revoked sessions

Disabling an account or changing its password ends the sessions that there are.  A session that is
started later must not rest on credentials that were read before.
-/

namespace NexusWorkflow.People

/-- The access of the user has not been revoked since the credentials behind the session were
read. -/
def Session.Current (s : Directory) (x : Session) : Prop := x.revocations = s.revocations x.userId

/-- A session is started only on credentials that were read after the last revocation. -/
def Verified (s : Directory) : PeopleOp → Prop
  | .createSession _ userId revocations => revocations = s.revocations userId
  | _ => True

instance (s : Directory) (op : PeopleOp) : Decidable (Verified s op) := by
  unfold Verified
  split <;> infer_instance

/-- All sessions are current. -/
def Directory.SessionsCurrent (s : Directory) : Prop := ∀ x ∈ s.sessions.values, x.Current s

variable {o : PeopleOptions} {s s' : Directory} {u : String}

/-- No session is new, and nothing is revoked. -/
theorem Directory.SessionsCurrent.fewer (h : s.SessionsCurrent)
    (hsessions : ∀ x ∈ s'.sessions.values, x ∈ s.sessions.values)
    (hrevoked : s'.revoked = s.revoked) : s'.SessionsCurrent := by
  intro x hx
  have := h x (hsessions x hx)
  unfold Session.Current Directory.revocations at this ⊢
  rw [this, hrevoked]

theorem Directory.SessionsCurrent.endSessions (h : s.SessionsCurrent) (u : String) :
    (s.endSessions u).SessionsCurrent := by
  intro x hx
  obtain ⟨hx, hne⟩ := List.mem_filter.1 hx
  have hne : x.userId ≠ u := of_decide_eq_true hne
  have := h x hx
  unfold Session.Current Directory.revocations at this ⊢
  rw [this]
  simp [Directory.endSessions, Ne.symm hne]

theorem Directory.SessionsCurrent.createSession {token : String} {n : Nat} (h : s.SessionsCurrent)
    (hn : n = s.revocations u) : (s.createSession o token u n).1.SessionsCurrent := by
  unfold Directory.createSession
  dsimp only
  split_ifs
  · exact h
  · intro x hx
    rcases KeyedMap.mem_set.1 hx with rfl | ⟨hx, -⟩
    · exact hn
    · exact h x hx

theorem Directory.SessionsCurrent.touch {token : String} (h : s.SessionsCurrent) :
    (s.touch o token).SessionsCurrent := by
  unfold Directory.touch
  split
  · exact h
  · next y hy =>
    intro x hx
    rcases KeyedMap.mem_set.1 hx with rfl | ⟨hx, -⟩
    · exact h y (KeyedMap.mem_of_get? hy)
    · exact h x hx

theorem sessionsCurrent_exec {op : PeopleOp} {a : Except StoreError op.Answer}
    (h : s.SessionsCurrent) (hC : Verified s op) (hexec : s.exec o op = some (s', a)) :
    s'.SessionsCurrent := by
  have hsame : ∀ {t : Directory}, t.sessions = s.sessions → t.revoked = s.revoked →
      t.SessionsCurrent :=
    fun hsessions hrevoked => h.fewer (fun x hx => hsessions ▸ hx) hrevoked
  cases op with
  | createUser id email name passwordHash =>
    obtain rfl : (s.createUser id email name passwordHash).1 = s' :=
      congrArg Prod.fst (Option.some.inj hexec)
    unfold Directory.createUser
    dsimp only
    split_ifs <;> exact hsame rfl rfl
  | addMembership id u role tenantId =>
    obtain rfl : (s.addMembership id u role tenantId).1 = s' :=
      congrArg Prod.fst (Option.some.inj hexec)
    unfold Directory.addMembership
    dsimp only
    split_ifs
    · split <;> exact hsame rfl rfl
    all_goals exact hsame rfl rfl
  | activate u =>
    cases hexec
    unfold Directory.activate
    split <;> exact hsame rfl rfl
  | lockToDisable u =>
    simp only [Directory.exec] at hexec
    split_ifs at hexec <;> cases hexec <;> exact hsame rfl rfl
  | disable u =>
    simp only [Directory.exec] at hexec
    split_ifs at hexec
    cases hexec
    unfold Directory.disable
    split
    · exact hsame rfl rfl
    · next x _ =>
      have hrow : (s.setUser { x with status := .disabled }).SessionsCurrent := hsame rfl rfl
      exact (hrow.endSessions u).fewer (fun _ hy => hy) rfl
  | lockToRemove u id =>
    simp only [Directory.exec] at hexec
    split_ifs at hexec
    split at hexec
    · cases hexec
      exact h
    · split_ifs at hexec <;> cases hexec <;> exact hsame rfl rfl
  | remove u id =>
    simp only [Directory.exec] at hexec
    split_ifs at hexec
    cases hexec
    unfold Directory.remove
    split
    · exact hsame rfl rfl
    · split_ifs <;> exact hsame rfl rfl
  | deleteUser u =>
    cases hexec
    unfold Directory.deleteUser
    split_ifs
    · exact h.fewer (fun x hx => (List.mem_filter.1 hx).1) rfl
    · exact h
  | setPassword u passwordHash =>
    cases hexec
    unfold Directory.setPassword
    split
    · exact h
    · next x _ =>
      have hrow : (s.setUser { x with passwordHash := some passwordHash }).SessionsCurrent :=
          hsame rfl rfl
      exact hrow.endSessions u
  | recordLogin u =>
    cases hexec
    unfold Directory.recordLogin
    split <;> exact hsame rfl rfl
  | createInvite id u token issuer =>
    obtain rfl : (s.createInvite o id u token issuer).1 = s' :=
      congrArg Prod.fst (Option.some.inj hexec)
    unfold Directory.createInvite
    dsimp only
    split_ifs <;> exact hsame rfl rfl
  | accept token passwordHash =>
    cases hexec
    unfold Directory.accept
    split
    · exact h
    · next i x _ =>
      have hrow : ({ s with invites := s.invites.set { i with usedAt := some s.now } }.setUser
          { x with passwordHash := some passwordHash }).SessionsCurrent := hsame rfl rfl
      exact hrow.endSessions x.id
  | createSession token u n =>
    obtain rfl : (s.createSession o token u n).1 = s' := congrArg Prod.fst (Option.some.inj hexec)
    exact h.createSession hC
  | touch token =>
    cases hexec
    exact h.touch
  | destroySession token =>
    cases hexec
    unfold Directory.destroySession
    split_ifs
    · exact h.fewer (fun x hx => (KeyedMap.mem_erase.1 hx).1) rfl
    · exact h
  | findById _ | findByEmail _ | findCredentials _ | tenantExists _ | listUsers _ | membershipsOf _
  | isWithinTenants _ _ | inspect _ | resolve _ =>
    cases hexec
    exact h

theorem sessionsCurrent_outcomes {op : PeopleOp} {a : Except StoreError op.Answer}
    (h : s.SessionsCurrent) (hC : Verified s op) (hmem : (s', a) ∈ s.outcomes o op) :
    s'.SessionsCurrent := by
  rcases outcomes_cases hmem with hexec | ⟨-, rfl | ⟨a', hexec⟩⟩
  · exact sessionsCurrent_exec h hC hexec
  · refine h.fewer (fun x hx => ?_) ?_
    · revert hx
      unfold Directory.rollback
      split
      · split_ifs <;> exact id
      · split_ifs <;> exact id
      · exact id
    · unfold Directory.rollback
      split
      · split_ifs <;> rfl
      · split_ifs <;> rfl
      · rfl
  · exact sessionsCurrent_exec h hC hexec

theorem resolve_some {token : String} {found : ResolvedSession}
    (h : s.resolve o token = some found) :
    ∃ x ∈ s.sessions.values, x.tokenHash = o.hash token ∧ x.userId = found.user.id := by
  unfold Directory.resolve at h
  split_ifs at h
  obtain ⟨x, hx, hfound⟩ := Option.bind_eq_some_iff.1 h
  split_ifs at hfound
  obtain ⟨user, huser, hfound⟩ := Option.map_eq_some_iff.1 hfound
  cases hfound
  exact ⟨x, KeyedMap.mem_of_get? hx, KeyedMap.key_of_get? hx, (KeyedMap.key_of_get? huser).symm⟩

/-- In every run in which sessions are started on credentials that were read after the last
revocation, a token resolves to a user only if the access of the user has not been revoked since
then. -/
theorem revoked_sessions_end {s₀ : Directory} (hempty : s₀.sessions = ∅) {w : Platform}
    (hw : Platform.Leads o Verified ⟨s₀, []⟩ w) {token : String} {found : ResolvedSession}
    (hfound : w.state.resolve o token = some found) :
    ∃ x ∈ w.state.sessions.values, x.tokenHash = o.hash token ∧ x.userId = found.user.id ∧
      x.revocations = w.state.revocations found.user.id := by
  have hcurrent : w.state.SessionsCurrent := by
    refine World.Leads.keeps hw (fun x hx => ?_) ?_ ?_
    · simp only [hempty] at hx
      cases hx
    · exact fun s op s' a h hC hmem => sessionsCurrent_outcomes h hC hmem
    · exact fun s ms h => h.fewer (fun _ hx => hx) rfl
  obtain ⟨x, hx, hhash, hid⟩ := resolve_some hfound
  exact ⟨x, hx, hhash, hid, hid ▸ hcurrent x hx⟩

/-- A token for a session. -/
def sessionToken : String := "session000000000000000000000000000000000_tk"

/-- Meg signs in. -/
def signInOfMeg : World.Turn PeopleJob Nat :=
  .start (.login "meg@office" "secret" none sessionToken)

theorem revoked_sessions_end_sign_in : ∃ (w : Platform) (x : Session),
    x ∈ w.state.sessions.values ∧ x.revocations = w.state.revocations "meg" := by
  have hrun : ((⟨office, []⟩ : Platform).plays (Directory.outcomes plainOptions)
      (PeopleJob.program plainOptions)
      Directory.wait Verified [signInOfMeg, .call 0 0, .call 0 0]).any
        (fun w => (w.state.resolve plainOptions sessionToken).any fun found =>
          found.user.id = "meg") = true := by
    decide +kernel
  obtain ⟨w, hplay, hmeg⟩ := (Option.any_eq_true ..).1 hrun
  obtain ⟨found, hfound, hid⟩ := (Option.any_eq_true ..).1 hmeg
  obtain ⟨x, hx, -, -, hrevocations⟩ := revoked_sessions_end rfl (.of_plays hplay) hfound
  exact ⟨w, x, hx, by rw [hrevocations, of_decide_eq_true hid]⟩

/-- Meg's account is disabled and enabled again while she signs in. -/
theorem not_revoked_sessions_end :
    ¬ ∀ (o : PeopleOptions) (s₀ : Directory), s₀.sessions = ∅ → ∀ w : Platform,
      Platform.Leads o anyPeopleOp ⟨s₀, []⟩ w →
        ∀ token found, w.state.resolve o token = some found →
        ∃ x ∈ w.state.sessions.values, x.tokenHash = o.hash token ∧ x.userId = found.user.id ∧
          x.revocations = w.state.revocations found.user.id := by
  intro h
  have hrun : ((⟨office, []⟩ : Platform).plays (Directory.outcomes plainOptions)
      (PeopleJob.program plainOptions)
      Directory.wait anyPeopleOp
        [signInOfMeg, .call 0 0,
          .start (.people .adminKey someIds (.setStatus "meg" .disabled)),
          .call 1 0, .call 1 0, .call 1 0, .call 1 0,
          .call 0 0,
          .start (.people .adminKey someIds (.setStatus "meg" .active)), .call 2 0, .call 2 0,
            .call 2 0]).any
        (fun w => (w.state.resolve plainOptions sessionToken).any fun found =>
          w.state.sessions.values.all fun x => x.revocations ≠ w.state.revocations found.user.id) =
            true := by
    decide +kernel
  obtain ⟨w, hplay, hrevoked⟩ := (Option.any_eq_true ..).1 hrun
  obtain ⟨found, hfound, hall⟩ := (Option.any_eq_true ..).1 hrevoked
  obtain ⟨x, hx, -, -, hsame⟩ :=
    h plainOptions office rfl w (.of_plays hplay) sessionToken found hfound
  exact of_decide_eq_true (List.all_eq_true.1 hall x hx) hsame

end NexusWorkflow.People
