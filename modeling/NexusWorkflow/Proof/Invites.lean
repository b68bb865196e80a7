import NexusWorkflow.Proof.Revocation

/-!
# Old invites

An invite sets the password of the person it was issued for, whatever roles they have got since.
Who has been told its token, and what has to be heeded for no administrator to be at the mercy of
someone who is none.
-/

namespace NexusWorkflow.People

/-! ## Who knows a token -/

/-- The one who acts is a system admin now. -/
def Directory.isSystemAdmin (s : Directory) : Identity → Bool
  | .adminKey | .commandLine => true
  | .user id => s.memberships.values.any fun m => m.userId = id && m.role = .systemAdmin
  | .operatorKey _ | .apiKey _ => false

/-- The token is known to a system admin or to the person themself. -/
def Invite.Trusted (s : Directory) (i : Invite) : Prop :=
  s.isSystemAdmin i.issuer = true ∨ i.issuer = .user i.userId

/-- The invite could be accepted now, and its person holds a platform role. -/
def Invite.OpensAdmin (s : Directory) (i : Invite) : Prop :=
  i.usable s.now = true ∧ s.isActiveAdmin i.userId = true

/-- Tokens that open the accounts of administrators are known to system admins and to these people
only. -/
def Directory.InvitesTrusted (s : Directory) : Prop :=
  ∀ i ∈ s.invites.values, i.OpensAdmin s → i.Trusted s

instance (s : Directory) (i : Invite) : Decidable (i.Trusted s) := by
  unfold Invite.Trusted; infer_instance

instance (s : Directory) (i : Invite) : Decidable (i.OpensAdmin s) := by
  unfold Invite.OpensAdmin; infer_instance

instance (s : Directory) : Decidable s.InvitesTrusted := by
  unfold Directory.InvitesTrusted; infer_instance

/-- The usable invites of the person are trusted. -/
def Directory.TrustsInvitesOf (s : Directory) (u : String) : Prop :=
  ∀ i ∈ s.invites.values, i.userId = u → i.usable s.now = true → i.Trusted s

/-- The user has issued no invite that opens the account of another administrator. -/
def Directory.OpensNoOther (s : Directory) (u : String) : Prop :=
  ∀ i ∈ s.invites.values, i.OpensAdmin s → i.issuer = .user u → i.userId = u

/-- A platform role is given to an active person, and a person with a platform role is enabled, only
when their usable invites are trusted; an invite for an active administrator is issued by a system
admin or by themself; and whoever loses the role of a system admin has issued no invite that opens
the account of another administrator. -/
def Heedful (s : Directory) : PeopleOp → Prop
  | .addMembership _ u role _ => role ∈ platformRoles → s.isActive u = true → s.TrustsInvitesOf u
  | .activate u => s.holdsPlatformRole u = true → s.TrustsInvitesOf u
  | .createInvite _ u _ issuer =>
      s.isActiveAdmin u = true → s.isSystemAdmin issuer = true ∨ issuer = .user u
  | .remove u id =>
      (∃ m ∈ s.memberships.get? id, m.role = .systemAdmin) → s.OpensNoOther u
  | .deleteUser u => s.OpensNoOther u
  | _ => True

instance (s : Directory) (u : String) : Decidable (s.TrustsInvitesOf u) := by
  unfold Directory.TrustsInvitesOf; infer_instance

instance (s : Directory) (u : String) : Decidable (s.OpensNoOther u) := by
  unfold Directory.OpensNoOther; infer_instance

instance (s : Directory) (op : PeopleOp) : Decidable (Heedful s op) := by
  induction op using PeopleOp.casesOn <;> dsimp only [Heedful] <;> infer_instance

/-! ## Steps -/

variable {o : PeopleOptions} {s s' : Directory} {u : String}

theorem isSystemAdmin_user_iff {id : String} :
    s.isSystemAdmin (.user id) = true ↔ ∃ m ∈ s.memberships.values, m.userId = id ∧
      m.role = .systemAdmin := by
  simp [Directory.isSystemAdmin]

/-- Whoever is a system admin remains one. -/
theorem isSystemAdmin_mono
    (h : ∀ m ∈ s.memberships.values, m.role = .systemAdmin → m ∈ s'.memberships.values)
    {x : Identity} (hx : s.isSystemAdmin x = true) : s'.isSystemAdmin x = true := by
  cases x with
  | user id =>
    obtain ⟨m, hm, hmid, hrole⟩ := isSystemAdmin_user_iff.1 hx
    exact isSystemAdmin_user_iff.2 ⟨m, h m hm hrole, hmid, hrole⟩
  | adminKey => rfl
  | commandLine => rfl
  | operatorKey id => cases hx
  | apiKey id => cases hx

theorem usable_of_later {i : Invite} {now later : Time} (hle : now ≤ later)
    (h : i.usable later = true) : i.usable now = true := by
  simp only [Invite.usable, Bool.and_eq_true, decide_eq_true_eq] at h ⊢
  exact ⟨h.1, Int.lt_of_le_of_lt hle h.2⟩

/-- The same system admins, fewer invites to the accounts of administrators. -/
theorem Directory.InvitesTrusted.fewer (h : s.InvitesTrusted)
    (hadmins : ∀ m ∈ s.memberships.values, m.role = .systemAdmin → m ∈ s'.memberships.values)
    (hopens : ∀ i ∈ s'.invites.values, i.OpensAdmin s' → i ∈ s.invites.values ∧ i.OpensAdmin s) :
    s'.InvitesTrusted := by
  intro i hi hopen
  obtain ⟨hi, hopen⟩ := hopens i hi hopen
  exact (h i hi hopen).imp_left (isSystemAdmin_mono hadmins)

/-- Nothing that matters has changed. -/
theorem Directory.InvitesTrusted.same (h : s.InvitesTrusted) (hadmins : SameAdmins s s')
    (hinvites : ∀ i ∈ s'.invites.values, i.usable s'.now = true → i ∈ s.invites.values)
    (hnow : s.now ≤ s'.now) : s'.InvitesTrusted :=
  h.fewer (fun m hm _ => hadmins.memberships ▸ hm) fun i hi hopen =>
    ⟨hinvites i hi hopen.1, usable_of_later hnow hopen.1, by rw [← hadmins.active]; exact hopen.2⟩

theorem Directory.InvitesTrusted.addMembership {id : String} {role : MembershipRole}
    {tenantId : Option String} (h : s.InvitesTrusted)
    (hC : role ∈ platformRoles → s.isActive u = true → s.TrustsInvitesOf u) :
    (s.addMembership id u role tenantId).1.InvitesTrusted := by
  unfold Directory.addMembership
  dsimp only
  split_ifs with hsame huser htenant
  · split <;> exact h
  · have hnew : id ∉ s.memberships.values.map (·.id) := by
      intro hmem
      obtain ⟨m, hm, hmid⟩ := List.mem_map.1 hmem
      refine hsame (List.any_eq_true.2 ⟨m, hm, ?_⟩)
      simp [hmid]
    have hvalues :
        ((s.setMembership { id, userId := u, role, tenantId, createdAt := s.now }
        huser).memberships).values =
        s.memberships.values ++ [{ id, userId := u, role, tenantId, createdAt := s.now }] :=
      KeyedMap.values_set_of_notMem hnew
    intro i hi hopen
    have htrusted : i.Trusted s := by
      obtain ⟨husable, hadmin⟩ := hopen
      obtain ⟨hholds, hactive⟩ := isActiveAdmin_iff.1 hadmin
      obtain ⟨m, hm, hmu, hrole⟩ := holdsPlatformRole_iff.1 hholds
      rw [hvalues] at hm
      rcases List.mem_append.1 hm with hm | hm
      · exact h i hi ⟨husable, isActiveAdmin_iff.2
          ⟨holdsPlatformRole_iff.2 ⟨m, hm, hmu, hrole⟩, hactive⟩⟩
      · obtain rfl := List.mem_singleton.1 hm
        have hmu : u = i.userId := hmu
        subst hmu
        exact hC hrole hactive i hi rfl husable
    exact htrusted.imp_left (isSystemAdmin_mono fun m hm _ => hvalues ▸ List.mem_append_left _ hm)
  · exact h
  · exact h

theorem Directory.InvitesTrusted.activate (h : s.InvitesTrusted)
    (hC : s.holdsPlatformRole u = true → s.TrustsInvitesOf u) :
    (s.activate u).1.InvitesTrusted := by
  unfold Directory.activate
  split
  · exact h
  · next x hx =>
    have hid := KeyedMap.key_of_get? hx
    intro i hi ⟨husable, hadmin⟩
    obtain ⟨hholds, hactive⟩ := isActiveAdmin_iff.1 hadmin
    by_cases hu : i.userId = u
    · exact hC (hu ▸ hholds) i hi hu husable
    · have hother : s.isActive i.userId = true := by
        unfold Directory.isActive at hactive ⊢
        rwa [show (s.setUser { x with status := .active }).users.get? i.userId =
          s.users.get? i.userId from
          KeyedMap.get?_set_of_ne _
            (by rw [show ({ x with status := UserStatus.active } : User).id =
            u from hid]; exact Ne.symm hu)] at hactive
      exact h i hi ⟨husable, isActiveAdmin_iff.2 ⟨hholds, hother⟩⟩

theorem Directory.InvitesTrusted.createInvite {id token : String} {issuer : Identity}
    (h : s.InvitesTrusted) (hC : s.isActiveAdmin u = true → s.isSystemAdmin issuer = true ∨
    issuer = .user u) :
    (s.createInvite o id u token issuer).1.InvitesTrusted := by
  unfold Directory.createInvite
  dsimp only
  split_ifs
  · exact h
  · intro i hi hopen
    rcases KeyedMap.mem_set.1 hi with rfl | ⟨hi, -⟩
    · exact hC hopen.2
    · exact h i (List.mem_filter.1 hi).1 hopen

/-- Invites of a user who is no system admin any more. -/
theorem Directory.InvitesTrusted.drop (h : s.InvitesTrusted)
    (hkept : ∀ m ∈ s.memberships.values, m ∈ s'.memberships.values ∨ m.userId = u)
    (hopens : ∀ i ∈ s'.invites.values, i.OpensAdmin s' → i ∈ s.invites.values ∧ i.OpensAdmin s)
    (hC : s.OpensNoOther u) : s'.InvitesTrusted := by
  intro i hi hopen
  obtain ⟨hi, hopen⟩ := hopens i hi hopen
  rcases h i hi hopen with hadmin | hself
  · by_cases hissuer : i.issuer = .user u
    · right
      rw [hissuer, hC i hi hopen hissuer]
    · left
      cases hx : i.issuer with
      | user id =>
        rw [hx] at hadmin hissuer
        obtain ⟨m, hm, hmid, hrole⟩ := isSystemAdmin_user_iff.1 hadmin
        refine isSystemAdmin_user_iff.2
          ⟨m, (hkept m hm).resolve_right fun hmu => hissuer ?_, hmid, hrole⟩
        rw [← hmid, hmu]
      | adminKey => rfl
      | commandLine => rfl
      | operatorKey id => rw [hx] at hadmin; cases hadmin
      | apiKey id => rw [hx] at hadmin; cases hadmin
  · exact .inr hself

/-- Fewer roles, fewer active people. -/
theorem isActiveAdmin_of_fewer {v : String}
    (hmemberships : ∀ m ∈ s'.memberships.values, m ∈ s.memberships.values)
    (hactive : s'.isActive v = true → s.isActive v = true) (h : s'.isActiveAdmin v = true) :
    s.isActiveAdmin v = true := by
  obtain ⟨hholds, hv⟩ := isActiveAdmin_iff.1 h
  obtain ⟨m, hm, hrest⟩ := holdsPlatformRole_iff.1 hholds
  exact isActiveAdmin_iff.2 ⟨holdsPlatformRole_iff.2 ⟨m, hmemberships m hm, hrest⟩, hactive hv⟩

theorem isActive_of_eraseUser {v : String} (h : (s.eraseUser u).isActive v = true) :
    s.isActive v = true := by
  obtain ⟨x, hx, hactive⟩ := isActive_iff.1 h
  have hne : u ≠ v := by
    rintro rfl
    exact absurd (hx.symm.trans (KeyedMap.get?_erase_self s.users u)) (by simp)
  exact isActive_iff.2 ⟨x, (KeyedMap.get?_erase_of_ne _ hne).symm.trans hx, hactive⟩

theorem isActive_of_disable {v : String} (h : (s.disable u).1.isActive v = true) :
    s.isActive v = true := by
  unfold Directory.disable at h
  split at h
  · exact h
  · next x hx =>
    have hid := KeyedMap.key_of_get? hx
    obtain ⟨y, hy, hactive⟩ := isActive_iff.1 h
    have hy : (s.users.set { x with status := .disabled }).get? v = some y := hy
    rw [KeyedMap.get?_set] at hy
    split_ifs at hy with hv
    · cases hy
      cases hactive
    · exact isActive_iff.2 ⟨y, hy, hactive⟩

theorem Directory.InvitesTrusted.disable (h : s.InvitesTrusted) :
    (s.disable u).1.unlock.InvitesTrusted := by
  have hmemberships : (s.disable u).1.memberships = s.memberships := by
    unfold Directory.disable
    split <;> rfl
  have hinvites : (s.disable u).1.invites = s.invites := by
    unfold Directory.disable
    split <;> rfl
  have hnow : (s.disable u).1.now = s.now := by
    unfold Directory.disable
    split <;> rfl
  have hfewer : ∀ m ∈ (s.disable u).1.memberships.values, m ∈ s.memberships.values :=
    fun m hm => hmemberships ▸ hm
  refine h.fewer (fun m hm _ => ?_) fun i hi hopen => ⟨?_, ?_, ?_⟩
  · exact (hmemberships ▸ hm : m ∈ (s.disable u).1.memberships.values)
  · exact hinvites ▸ hi
  · exact hnow ▸ hopen.1
  · exact isActiveAdmin_of_fewer hfewer isActive_of_disable hopen.2

theorem Directory.InvitesTrusted.remove {id : String} (h : s.InvitesTrusted)
    (hC : (∃ m ∈ s.memberships.get? id, m.role = .systemAdmin) → s.OpensNoOther u) :
    (s.remove u id).1.unlock.InvitesTrusted := by
  unfold Directory.remove
  split
  · exact h
  · next m hm =>
    split_ifs with hu
    · have hfewer : ∀ x ∈ (s.eraseMembership id).unlock.memberships.values,
        x ∈ s.memberships.values :=
        fun x hx => (KeyedMap.mem_erase.1 hx).1
      have hopens : ∀ i ∈ (s.eraseMembership id).unlock.invites.values,
          i.OpensAdmin (s.eraseMembership id).unlock →
          i ∈ s.invites.values ∧ i.OpensAdmin s := fun i hi hopen =>
        ⟨hi, hopen.1, isActiveAdmin_of_fewer hfewer (fun hv => hv) hopen.2⟩
      by_cases hrole : m.role = .systemAdmin
      · refine h.drop (fun x hx => ?_) hopens (hC ⟨m, hm, hrole⟩)
        by_cases hid : x.id = id
        · right
          rw [KeyedMap.eq_of_key_eq hx (KeyedMap.mem_of_get? hm)
            (hid.trans (KeyedMap.key_of_get? hm).symm), hu]
        · exact .inl (KeyedMap.mem_erase.2 ⟨hx, hid⟩)
      · refine h.fewer (fun x hx hxrole => KeyedMap.mem_erase.2 ⟨hx, fun hid => hrole ?_⟩) hopens
        rwa [KeyedMap.eq_of_key_eq hx (KeyedMap.mem_of_get? hm)
          (hid.trans (KeyedMap.key_of_get? hm).symm)] at hxrole
    · exact h

theorem Directory.InvitesTrusted.deleteUser (h : s.InvitesTrusted) (hC : s.OpensNoOther u) :
    (s.deleteUser u).1.InvitesTrusted := by
  unfold Directory.deleteUser
  split_ifs
  · refine h.drop (fun m hm => ?_) (fun i hi hopen => ⟨(List.mem_filter.1 hi).1, hopen.1, ?_⟩) hC
    · by_cases hmu : m.userId = u
      · exact .inr hmu
      · exact .inl (List.mem_filter.2 ⟨hm, by simp [hmu]⟩)
    · exact isActiveAdmin_of_fewer
        (fun m hm => (List.mem_filter.1 hm).1) isActive_of_eraseUser hopen.2
  · exact h

theorem Directory.InvitesTrusted.accept {token passwordHash : String} (h : s.InvitesTrusted) :
    (s.accept o token passwordHash).1.InvitesTrusted := by
  have hadmins : SameAdmins s (s.accept o token passwordHash).1 := sameAdmins_accept
  unfold Directory.accept at hadmins ⊢
  split at hadmins
  · exact h
  · next i x hx =>
    refine h.same hadmins (fun j hj husable => ?_) (Int.le_refl _)
    rcases KeyedMap.mem_set.1 hj with rfl | ⟨hj, -⟩
    · simp [Invite.usable] at husable
    · exact hj

theorem invitesTrusted_exec {op : PeopleOp} {a : Except StoreError op.Answer} (h : s.InvitesTrusted)
    (hC : Heedful s op) (hexec : s.exec o op = some (s', a)) : s'.InvitesTrusted := by
  have hsame : ∀ {t : Directory}, SameAdmins s t → t.invites = s.invites → t.now = s.now →
      t.InvitesTrusted :=
    fun hadmins hinvites hnow =>
      h.same hadmins (fun i hi _ => hinvites ▸ hi) (Int.le_of_eq hnow.symm)
  cases op with
  | createUser id email name passwordHash =>
    obtain rfl : (s.createUser id email name passwordHash).1 = s' :=
      congrArg Prod.fst (Option.some.inj hexec)
    refine hsame sameAdmins_createUser ?_ ?_ <;>
      · unfold Directory.createUser
        dsimp only
        split_ifs <;> rfl
  | addMembership id u role tenantId =>
    obtain rfl : (s.addMembership id u role tenantId).1 = s' :=
      congrArg Prod.fst (Option.some.inj hexec)
    exact h.addMembership hC
  | activate u =>
    cases hexec
    exact h.activate hC
  | lockToDisable u =>
    simp only [Directory.exec] at hexec
    split_ifs at hexec <;> cases hexec <;> exact h
  | disable u =>
    simp only [Directory.exec] at hexec
    split_ifs at hexec
    cases hexec
    exact h.disable
  | lockToRemove u id =>
    simp only [Directory.exec] at hexec
    split_ifs at hexec
    split at hexec
    · cases hexec
      exact h
    · split_ifs at hexec <;> cases hexec <;> exact h
  | remove u id =>
    simp only [Directory.exec] at hexec
    split_ifs at hexec
    cases hexec
    exact h.remove hC
  | deleteUser u =>
    cases hexec
    exact h.deleteUser hC
  | setPassword u passwordHash =>
    cases hexec
    refine hsame sameAdmins_setPassword ?_ ?_ <;>
      · unfold Directory.setPassword
        split <;> rfl
  | recordLogin u =>
    cases hexec
    refine hsame sameAdmins_recordLogin ?_ ?_ <;>
      · unfold Directory.recordLogin
        split <;> rfl
  | createInvite id u token issuer =>
    obtain rfl : (s.createInvite o id u token issuer).1 = s' :=
      congrArg Prod.fst (Option.some.inj hexec)
    exact h.createInvite hC
  | accept token passwordHash =>
    cases hexec
    exact h.accept
  | createSession token u n =>
    obtain rfl : (s.createSession o token u n).1 = s' := congrArg Prod.fst (Option.some.inj hexec)
    unfold Directory.createSession
    dsimp only
    split_ifs <;> exact h
  | touch token =>
    cases hexec
    unfold Directory.touch
    split <;> exact h
  | destroySession token =>
    cases hexec
    unfold Directory.destroySession
    split_ifs <;> exact h
  | findById _ | findByEmail _ | findCredentials _ | tenantExists _ | listUsers _ | membershipsOf _
  | isWithinTenants _ _ | inspect _ | resolve _ =>
    cases hexec
    exact h

theorem invitesTrusted_outcomes {op : PeopleOp} {a : Except StoreError op.Answer}
    (h : s.InvitesTrusted) (hC : Heedful s op) (hmem : (s', a) ∈ s.outcomes o op) :
    s'.InvitesTrusted := by
  rcases outcomes_cases hmem with hexec | ⟨-, rfl | ⟨a', hexec⟩⟩
  · exact invitesTrusted_exec h hC hexec
  · unfold Directory.rollback
    split
    · split_ifs <;> exact h
    · split_ifs <;> exact h
    · exact h
  · exact invitesTrusted_exec h hC hexec

/-- In every heedful run, a usable invite to the account of an administrator is known to a system
admin or to that person only; so whoever accepts one has the token from one of them. -/
theorem old_invites {s₀ : Directory} (h : s₀.InvitesTrusted) {w : Platform}
    (hw : Platform.Leads o Heedful ⟨s₀, []⟩ w) :
    (∀ i ∈ w.state.invites.values, i.usable w.state.now = true →
    w.state.isActiveAdmin i.userId = true →
      w.state.isSystemAdmin i.issuer = true ∨ i.issuer = .user i.userId) ∧
    ∀ token passwordHash accepted, (w.state.accept o token passwordHash).2 = some accepted →
      w.state.holdsPlatformRole accepted.user.id = true →
        ∃ i ∈ w.state.invites.values, i.tokenHash = o.hash token ∧ i.userId = accepted.user.id ∧
          (w.state.isSystemAdmin i.issuer = true ∨ i.issuer = .user i.userId) := by
  have htrusted : w.state.InvitesTrusted := by
    refine World.Leads.keeps hw h ?_ ?_
    · exact fun s op s' a h hC hmem => invitesTrusted_outcomes h hC hmem
    · refine fun s ms h => h.same (sameAdmins_of_same rfl rfl rfl) (fun i hi _ => hi) ?_
      exact Int.le_add_of_nonneg_right (Int.natCast_nonneg ms)
  refine ⟨fun i hi husable hadmin => htrusted i hi ⟨husable, hadmin⟩, ?_⟩
  intro token passwordHash accepted haccepted hholds
  unfold Directory.accept at haccepted
  split at haccepted
  · cases haccepted
  · next i x hx =>
    cases haccepted
    obtain ⟨hi, hhash, husable, hactive, hget⟩ := findInvite_some hx
    have hid : x.id = i.userId := KeyedMap.key_of_get? hget
    have hholds : w.state.holdsPlatformRole i.userId = true := hid ▸ hholds
    exact ⟨i, hi, hhash, hid.symm, htrusted i hi ⟨husable, isActiveAdmin_iff.2 ⟨hholds, hactive⟩⟩⟩

/-- An operator key creates Bob and is told his token; a system admin makes Bob an operator. -/
def promotion : List (World.Turn PeopleJob Nat) :=
  [.start (.people (.operatorKey "key" "provisioning") someIds
    (.create { email := "bob@office", name := "Bob" })),
    .call 0 0, .call 0 0, .call 0 0, .call 0 0,
    .start (.people .adminKey (fun _ => "bob-operator")
      (.addMembership "new user" ⟨.operator, none⟩)),
    .call 1 0, .call 1 0, .call 1 0]

/-- Made by the command line, the operator and the invite are both safe. -/
theorem old_invites_operator : ∃ (w : Platform) (i : Invite), i ∈ w.state.invites.values ∧
    w.state.isActiveAdmin i.userId = true ∧
      (w.state.isSystemAdmin i.issuer = true ∨ i.issuer = .user i.userId) := by
  have hrun : ((⟨office, []⟩ : Platform).plays (Directory.outcomes plainOptions)
      (PeopleJob.program plainOptions)
      Directory.wait Heedful
        [.start (.createOperator someIds "bob@office" "Bob"), .call 0 0, .call 0 0, .call 0 0,
          .call 0 0]).any
        (fun w => w.state.invites.values.any fun i =>
          i.usable w.state.now && w.state.isActiveAdmin i.userId) = true := by
    decide +kernel
  obtain ⟨w, hplay, hinvite⟩ := (Option.any_eq_true ..).1 hrun
  obtain ⟨i, hi, hopens⟩ := List.any_eq_true.1 hinvite
  obtain ⟨husable, hadmin⟩ := Bool.and_eq_true_iff.1 hopens
  exact ⟨w, i, hi, hadmin, (old_invites (by decide +kernel) (.of_plays hplay)).1 i hi husable
    hadmin⟩

theorem not_old_invites :
    ¬ ∀ (o : PeopleOptions) (s₀ : Directory), s₀.InvitesTrusted → ∀ w : Platform,
      Platform.Leads o anyPeopleOp ⟨s₀, []⟩ w → ∀ i ∈ w.state.invites.values,
        i.usable w.state.now = true →
        w.state.isActiveAdmin i.userId = true →
          w.state.isSystemAdmin i.issuer = true ∨ i.issuer = .user i.userId := by
  intro h
  have hrun : ((⟨office, []⟩ : Platform).plays (Directory.outcomes plainOptions)
      (PeopleJob.program plainOptions)
      Directory.wait anyPeopleOp promotion).any
        (fun w => w.state.invites.values.any fun i =>
          decide (i.OpensAdmin w.state ∧ ¬ i.Trusted w.state)) = true := by
    decide +kernel
  obtain ⟨w, hplay, hinvite⟩ := (Option.any_eq_true ..).1 hrun
  obtain ⟨i, hi, hopens⟩ := List.any_eq_true.1 hinvite
  obtain ⟨⟨husable, hadmin⟩, huntrusted⟩ := of_decide_eq_true hopens
  exact huntrusted (h plainOptions office (by decide +kernel) w
    (.of_plays hplay) i hi husable hadmin)

end NexusWorkflow.People
