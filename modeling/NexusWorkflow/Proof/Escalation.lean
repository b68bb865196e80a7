import NexusWorkflow.Model.SignIn

/-!
# No escalation through the administration of people

What one operation of an actor who is not a system admin may change, and from it what a sequence of
operations may: no one gets a platform role, and no one who holds one is touched.
-/

namespace NexusWorkflow.People

/-! ## Rows of one person -/

/-- The row, the memberships and the invites of the person are the same. -/
structure Untouched (s s' : Directory) (u : String) : Prop where
  user : s'.users.get? u = s.users.get? u
  memberships : s'.membershipsOf [u] = s.membershipsOf [u]
  invites : (s'.invites.values.filter fun i => i.userId = u) = s.invites.values.filter fun i =>
    i.userId = u

theorem Untouched.refl (s : Directory) (u : String) : Untouched s s u := ⟨rfl, rfl, rfl⟩

theorem Untouched.trans {s₁ s₂ s₃ : Directory} {u : String} (h : Untouched s₁ s₂ u)
    (h' : Untouched s₂ s₃ u) : Untouched s₁ s₃ u :=
  ⟨h'.user.trans h.user, h'.memberships.trans h.memberships, h'.invites.trans h.invites⟩

/-- Only this person is touched, and the new memberships are theirs and P. -/
structure Affects (P : Membership → Prop) (u : String) (s s' : Directory) : Prop where
  others : ∀ v, v ≠ u → Untouched s s' v
  grants : ∀ m ∈ s'.memberships.values, m ∈ s.memberships.values ∨ (m.userId = u ∧ P m)

section Affects

variable {P : Membership → Prop} {u : String} {s s' s'' : Directory} {o : PeopleOptions}

theorem Affects.refl (s : Directory) : Affects P u s s :=
  ⟨fun v _ => Untouched.refl s v, fun _ hm => .inl hm⟩

theorem Affects.trans (h : Affects P u s s') (h' : Affects P u s' s'') : Affects P u s s'' where
  others v hv := (h.others v hv).trans (h'.others v hv)
  grants m hm := (h'.grants m hm).elim (h.grants m) .inr

theorem Affects.unlock (h : Affects P u s s') : Affects P u s s'.unlock :=
  ⟨fun v hv => ⟨(h.others v hv).user, (h.others v hv).memberships, (h.others v hv).invites⟩,
    h.grants⟩

theorem affects_setUser {x : User} (hx : x.id = u) : Affects P u s (s.setUser x) where
  others v hv := ⟨KeyedMap.get?_set_of_ne _ (by rw [hx]; exact Ne.symm hv), rfl, rfl⟩
  grants m hm := .inl hm

theorem affects_createUser {email name : String} {passwordHash : Option String} :
    Affects P u s (s.createUser u email name passwordHash).1 := by
  unfold Directory.createUser
  dsimp only
  split_ifs
  · exact .refl s
  · exact affects_setUser rfl

theorem affects_addMembership {id : String} {role : MembershipRole} {tenantId : Option String}
    (hallowed : ∀ m : Membership, m.role = role → m.tenantId = tenantId → P m) :
    Affects P u s (s.addMembership id u role tenantId).1 := by
  unfold Directory.addMembership
  dsimp only
  split_ifs with hsame huser htenant
  · split <;> exact .refl s
  · have hid : id ∉ s.memberships.values.map (·.id) := by
      intro hmem
      obtain ⟨m, hm, hmid⟩ := List.mem_map.1 hmem
      refine hsame (List.any_eq_true.2 ⟨m, hm, ?_⟩)
      simp [hmid]
    constructor
    · intro v hv
      refine ⟨rfl, ?_, rfl⟩
      simp only [Directory.membershipsOf, Directory.setMembership]
      rw [KeyedMap.values_set_of_notMem hid, List.filter_append]
      simp [Ne.symm hv]
    · intro m hm
      rcases KeyedMap.mem_set.1 hm with rfl | ⟨hm, -⟩
      · exact .inr ⟨rfl, hallowed _ rfl rfl⟩
      · exact .inl hm
  · exact .refl s
  · exact .refl s

theorem affects_activate : Affects P u s (s.activate u).1 := by
  unfold Directory.activate
  split
  · exact .refl s
  · next x hx =>
    have hid := KeyedMap.key_of_get? hx
    exact affects_setUser hid

theorem affects_disable : Affects P u s (s.disable u).1 := by
  unfold Directory.disable
  split
  · exact .refl s
  · next x hx =>
    have hid := KeyedMap.key_of_get? hx
    have h : Affects P u s (s.setUser { x with status := .disabled }) :=
      affects_setUser hid
    exact ⟨fun v hv => ⟨(h.others v hv).user, (h.others v hv).memberships, (h.others v hv).invites⟩,
      h.grants⟩

theorem affects_remove {membershipId : String} : Affects P u s (s.remove u membershipId).1 := by
  unfold Directory.remove
  split
  · exact .refl s
  · next m hm =>
    split_ifs with hu
    · refine ⟨fun v hv => ⟨rfl, ?_, rfl⟩, fun x hx => .inl (KeyedMap.mem_erase.1 hx).1⟩
      simp only [Directory.membershipsOf, Directory.eraseMembership, KeyedMap.erase,
        List.filter_filter]
      refine List.filter_congr fun x hx => ?_
      by_cases hid : x.id = membershipId
      · have hxm : x = m :=
          KeyedMap.eq_of_key_eq hx (KeyedMap.mem_of_get? hm)
            (hid.trans (KeyedMap.key_of_get? hm).symm)
        have hne : u ≠ v := Ne.symm hv
        simp [hxm, hu, hne]
      · simp [hid]
    · exact .refl s

theorem affects_deleteUser : Affects P u s (s.deleteUser u).1 := by
  unfold Directory.deleteUser
  split_ifs
  · refine ⟨fun v hv => ⟨KeyedMap.get?_erase_of_ne _ (Ne.symm hv), ?_, ?_⟩,
      fun x hx => .inl (List.mem_filter.1 hx).1⟩
    · simp only [Directory.membershipsOf, Directory.eraseUser, KeyedMap.keep, List.filter_filter]
      refine List.filter_congr fun x _ => ?_
      by_cases hx : x.userId = v
      · simp [hx, hv]
      · simp [hx]
    · simp only [Directory.eraseUser, KeyedMap.keep, List.filter_filter]
      refine List.filter_congr fun x _ => ?_
      by_cases hx : x.userId = v
      · simp [hx, hv]
      · simp [hx]
  · exact .refl s

theorem affects_createInvite {id token : String} {issuer : Identity} :
    Affects P u s (s.createInvite o id u token issuer).1 := by
  unfold Directory.createInvite
  dsimp only
  split_ifs with hclash
  · exact .refl s
  · refine ⟨fun v hv => ⟨rfl, rfl, ?_⟩, fun x hx => .inl hx⟩
    have hid : id ∉ (s.invites.keep fun i => !(i.userId = u && i.usedAt.isNone)).values.map
        (·.id) := by
      intro hmem
      obtain ⟨i, hi, hiid⟩ := List.mem_map.1 hmem
      refine hclash (.inr (List.any_eq_true.2 ⟨i, hi, ?_⟩))
      simp [hiid]
    dsimp only
    rw [KeyedMap.values_set_of_notMem hid, List.filter_append]
    simp only [KeyedMap.keep, List.filter_filter]
    rw [show [_].filter _ = ([] : List Invite) from by simp [Ne.symm hv], List.append_nil]
    refine List.filter_congr fun x _ => ?_
    by_cases hx : x.userId = v
    · simp [hx, hv]
    · simp [hx]

end Affects

/-! ## Operations of the store -/

section Operations

variable {o : PeopleOptions} {P : Membership → Prop} {u : String} {s s' : Directory}

/-- What may come of an operation. -/
theorem outcomes_cases {op : PeopleOp} {answer : Except StoreError op.Answer}
    (h : (s', answer) ∈ s.outcomes o op) :
    s.exec o op = some (s', answer) ∨
      answer = .error .other ∧ (s' = s.rollback op ∨ ∃ a, s.exec o op = some (s', a)) := by
  unfold Directory.outcomes at h
  cases hexec : s.exec o op with
  | none =>
    simp only [hexec, List.mem_singleton, Prod.mk.injEq] at h
    exact .inr ⟨h.2, .inl h.1⟩
  | some result =>
    obtain ⟨s₁, a⟩ := result
    simp only [hexec] at h
    split_ifs at h
    · simp only [List.mem_cons, Prod.mk.injEq, List.not_mem_nil, or_false] at h
      rcases h with ⟨rfl, rfl⟩ | ⟨rfl, rfl⟩
      · exact .inl rfl
      · exact .inr ⟨rfl, .inl rfl⟩
    · simp only [List.mem_cons, Prod.mk.injEq, List.not_mem_nil, or_false] at h
      rcases h with ⟨rfl, rfl⟩ | ⟨rfl, rfl⟩ | ⟨rfl, rfl⟩
      · exact .inl rfl
      · exact .inr ⟨rfl, .inl rfl⟩
      · exact .inr ⟨rfl, .inr ⟨a, rfl⟩⟩

/-- A query changes nothing and returns what the tables hold. -/
theorem always_query {op : PeopleOp} {a : op.Answer} (hexec : s.exec o op = some (s, .ok a))
    (hrollback : s.rollback op = s) {Q : Directory → Except StoreError op.Answer → Prop}
    (hok : Q s (.ok a)) (herror : Q s (.error .other)) :
    Async.always (Directory.outcomes o) (await op) Q s := by
  intro s' answer h
  rcases outcomes_cases h with h | ⟨rfl, rfl | ⟨a', h⟩⟩
  · rw [hexec] at h
    cases h
    exact hok
  · rw [hrollback]
    exact herror
  · rw [hexec] at h
    cases h
    exact herror

/-- An operation leaves what its execution or its failure leaves. -/
theorem always_exec {op : PeopleOp} {R : Directory → Prop}
    (hexec : ∀ s₁ a, s.exec o op = some (s₁, a) → R s₁) (hrollback : R (s.rollback op)) :
    Async.always (Directory.outcomes o) (await op) (fun s₁ _ => R s₁) s := by
  intro s' answer h
  rcases outcomes_cases h with h | ⟨-, rfl | ⟨a', h⟩⟩
  · exact hexec s' _ h
  · exact hrollback
  · exact hexec s' _ h

theorem always_affects {op : PeopleOp} (h : ∀ s₁ a, s.exec o op = some (s₁, a) → Affects P u s s₁) :
    Async.always (Directory.outcomes o) (await op) (fun s₁ _ => Affects P u s s₁) s := by
  refine always_exec h ?_
  unfold Directory.rollback
  split
  · split_ifs
    · exact (Affects.refl s).unlock
    · exact .refl s
  · split_ifs
    · exact (Affects.refl s).unlock
    · exact .refl s
  · exact .refl s

/-- Nothing but reading. -/
def Reads {α : Type} (o : PeopleOptions) (task : Task α) (s : Directory)
    (P : Except StoreError α → Prop) : Prop :=
  Async.always (Directory.outcomes o) task (fun s' r => s' = s ∧ P r) s

theorem reads_getWithMemberships (userId : String) :
    Reads o (UserStore.getWithMemberships userId) s fun r =>
      ∀ target, r = .ok (some target) →
        s.users.get? userId = some target.user ∧ target.memberships = s.membershipsOf [userId] := by
  unfold UserStore.getWithMemberships Reads
  rw [Async.always_bind]
  refine always_query rfl rfl ?_ ⟨rfl, by simp⟩
  cases hget : s.users.get? userId with
  | none => exact ⟨rfl, by simp⟩
  | some user =>
    dsimp only
    rw [Async.always_bind]
    refine always_query rfl rfl ⟨rfl, ?_⟩ ⟨rfl, by simp⟩
    rintro target ⟨⟩
    exact ⟨rfl, by rw [KeyedMap.key_of_get? hget]⟩

theorem reads_isWithinTenants (userId : String) (tenantIds : List String) :
    Reads o (UserStore.isWithinTenants userId tenantIds) s fun r =>
      r = .ok true → s.isWithinTenants userId tenantIds = true := by
  unfold UserStore.isWithinTenants Reads
  split_ifs
  · exact ⟨rfl, by simp⟩
  · refine always_query rfl rfl ⟨rfl, fun h => ?_⟩ ⟨rfl, by simp⟩
    exact Except.ok.inj h

theorem reads_reach (scope : Scope) (userId : String) :
    Reads o (UserAdmin.reach scope userId) s fun r =>
      ∀ target, r = .ok (.ok target) →
        s.users.get? userId = some target.user ∧ target.memberships = s.membershipsOf [userId] ∧
          (scope.operator = true ∨ s.isWithinTenants userId scope.managed = true) := by
  unfold UserAdmin.reach Reads
  rw [Async.always_bind]
  have hwithin : Async.always (Directory.outcomes o)
      (if scope.operator then pure true
        else UserStore.isWithinTenants userId scope.managed : Task Bool)
      (fun s' r => s' = s ∧ (r = .ok true →
        scope.operator = true ∨ s.isWithinTenants userId scope.managed = true)) s := by
    split_ifs with hop
    · exact ⟨rfl, fun _ => .inl hop⟩
    · exact Async.always_mono (reads_isWithinTenants userId scope.managed) fun _ r h =>
        ⟨h.1, fun hr => .inr (h.2 hr)⟩
  refine Async.always_mono hwithin ?_
  rintro _ (e | within) ⟨rfl, hw⟩
  · exact ⟨rfl, by simp⟩
  · dsimp only
    rw [Async.always_bind]
    cases within with
    | false => exact ⟨rfl, by simp [fail]⟩
    | true =>
      refine Async.always_mono (reads_getWithMemberships userId) ?_
      rintro _ (e | (_ | user)) ⟨rfl, h⟩
      · exact ⟨rfl, by simp⟩
      · exact ⟨rfl, by simp [fail]⟩
      · refine ⟨rfl, ?_⟩
        rintro target ⟨⟩
        obtain ⟨hrow, hmemberships⟩ := h user rfl
        exact ⟨hrow, hmemberships, hw rfl⟩

theorem reads_validateMembership (request : MembershipRequest) :
    Reads o (UserAdmin.validateMembership request) s fun _ => True := by
  obtain ⟨role, tenantId⟩ := request
  unfold UserAdmin.validateMembership Reads
  cases role with
  | systemAdmin => exact ⟨rfl, trivial⟩
  | operator => cases tenantId <;> exact ⟨rfl, trivial⟩
  | tenantManager =>
    cases tenantId with
    | none => exact ⟨rfl, trivial⟩
    | some tenantId =>
      dsimp only
      rw [Async.always_bind]
      refine always_query rfl rfl ?_ ⟨rfl, trivial⟩
      dsimp only
      split_ifs <;> exact ⟨rfl, trivial⟩

theorem reads_validateAll (memberships : List MembershipRequest) :
    Reads o (UserAdmin.validateAll memberships) s fun _ => True := by
  induction memberships with
  | nil => exact ⟨rfl, trivial⟩
  | cons membership rest ih =>
    unfold UserAdmin.validateAll Reads
    rw [Async.always_bind]
    refine Async.always_mono (reads_validateMembership membership) ?_
    rintro _ (e | _ | invalid) ⟨rfl, -⟩
    · exact ⟨rfl, trivial⟩
    · exact ih
    · exact ⟨rfl, trivial⟩

/-- Whatever was thrown, the tables are as they are, and there is no good result. -/
theorem always_fromStoreError {α : Type} {e : StoreError} {R : Directory → Prop} (h : R s) :
    Async.always (Directory.outcomes o) (UserAdmin.fromStoreError e : Task (Outcome α))
      (fun s' r => R s' ∧ ∀ a, r ≠ .ok (.ok a)) s := by
  cases e <;> exact ⟨h, by simp [fail]⟩

theorem always_caught {α : Type} {task : Task α} {R : Directory → Prop}
    (h : Async.always (Directory.outcomes o) task (fun s' _ => R s') s) :
    Async.always (Directory.outcomes o)
      (tryCatch (.ok <$> task) UserAdmin.fromStoreError : Task (Outcome α))
      (fun s' _ => R s') s := by
  rw [Async.always_tryCatch, Async.always_map]
  refine Async.always_mono h ?_
  rintro s' (e | a) hr
  · exact Async.always_mono (always_fromStoreError hr) fun _ _ h => h.1
  · exact hr

theorem affects_userStore_addMembership {id : String} {role : MembershipRole}
    {tenantId : Option String}
    (hallowed : ∀ m : Membership, m.role = role → m.tenantId = tenantId → P m) :
    Async.always (Directory.outcomes o) (UserStore.addMembership id u role tenantId)
      (fun s' _ => Affects P u s s') s := by
  unfold UserStore.addMembership
  split_ifs
  · exact .refl s
  · exact .refl s
  · refine always_affects fun s' a h => ?_
    obtain rfl : (s.addMembership id u role tenantId).1 = s' :=
      congrArg Prod.fst (Option.some.inj h)
    exact affects_addMembership hallowed

theorem affects_userStore_setStatus (status : UserStatus) :
    Async.always (Directory.outcomes o) (UserStore.setStatus u status)
      (fun s' _ => Affects P u s s') s := by
  cases status with
  | active =>
    refine always_affects fun s' a h => ?_
    cases h
    exact affects_activate
  | disabled =>
    unfold UserStore.setStatus
    rw [Async.always_bind]
    have hlock : Async.always (Directory.outcomes o) (await (.lockToDisable u))
        (fun s₁ _ => Affects P u s s₁) s := by
      refine always_affects fun s₁ a h => ?_
      simp only [Directory.exec] at h
      split_ifs at h
      · cases h
        exact ⟨fun v _ => ⟨rfl, rfl, rfl⟩, fun m hm => .inl hm⟩
      · cases h
        exact .refl s
    refine Async.always_mono hlock ?_
    rintro s₁ (e | a) h₁
    · exact h₁
    · refine Async.always_mono (always_affects (P := P) (u := u) fun s₂ a h => ?_) fun s₂ _ h₂ =>
        h₁.trans h₂
      simp only [Directory.exec] at h
      split_ifs at h
      cases h
      exact affects_disable.unlock

theorem affects_userStore_removeMembership (membershipId : String) :
    Async.always (Directory.outcomes o) (UserStore.removeMembership u membershipId)
      (fun s' _ => Affects P u s s') s := by
  unfold UserStore.removeMembership
  rw [Async.always_bind]
  have hlock : Async.always (Directory.outcomes o) (await (.lockToRemove u membershipId))
      (fun s₁ _ => Affects P u s s₁) s := by
    refine always_affects fun s₁ a h => ?_
    simp only [Directory.exec] at h
    split_ifs at h
    split at h
    · cases h
      exact .refl s
    · split_ifs at h
      · cases h
        exact .refl s
      · cases h
        exact .refl s
      · cases h
        exact ⟨fun v _ => ⟨rfl, rfl, rfl⟩, fun m hm => .inl hm⟩
  refine Async.always_mono hlock ?_
  rintro s₁ (e | found) h₁
  · exact h₁
  · dsimp only
    split_ifs
    · refine Async.always_mono (always_affects (P := P) (u := u) fun s₂ a h => ?_) fun s₂ _ h₂ =>
        h₁.trans h₂
      simp only [Directory.exec] at h
      split_ifs at h
      cases h
      exact affects_remove.unlock
    · exact h₁

theorem affects_grantAll (ids : Nat → String) {memberships : List MembershipRequest}
    (hallowed : ∀ request ∈ memberships, ∀ m : Membership,
      m.role = request.role → m.tenantId = request.tenantId → P m) (n : Nat) :
    Async.always (Directory.outcomes o) (UserAdmin.grantAll ids u n memberships)
      (fun s' _ => Affects P u s s') s := by
  induction memberships generalizing s n with
  | nil => exact .refl s
  | cons membership rest ih =>
    unfold UserAdmin.grantAll
    rw [Async.always_bind]
    refine Async.always_mono (affects_userStore_addMembership
      (hallowed membership List.mem_cons_self)) ?_
    rintro s₁ (e | a) h₁
    · exact h₁
    · exact Async.always_mono (ih (fun r hr => hallowed r (List.mem_cons_of_mem _ hr)) (n + 1))
        fun s₂ _ h₂ => h₁.trans h₂

theorem affects_equip (ids : Nat → String) (scope : Scope) {memberships : List MembershipRequest}
    (hallowed : ∀ request ∈ memberships, ∀ m : Membership,
      m.role = request.role → m.tenantId = request.tenantId → P m) :
    Async.always (Directory.outcomes o) (UserAdmin.equip ids scope u memberships)
      (fun s' _ => Affects P u s s') s := by
  unfold UserAdmin.equip
  rw [Async.always_bind]
  refine Async.always_mono (affects_grantAll ids hallowed 3) ?_
  rintro s₁ (e | a) h₁
  · exact h₁
  · dsimp only
    rw [Async.always_bind]
    refine Async.always_mono (always_affects (P := P) (u := u) fun s₂ a h => ?_) ?_
    · obtain rfl : (s₁.createInvite o (ids 1) u (ids 2) scope.actor).1 = s₂ :=
        congrArg Prod.fst (Option.some.inj h)
      exact affects_createInvite
    · rintro s₂ (e | invite) h₂
      · exact h₁.trans h₂
      · dsimp only
        rw [Async.always_bind]
        refine Async.always_mono (reads_getWithMemberships u) ?_
        rintro _ (e | _ | user) ⟨rfl, -⟩ <;> exact h₁.trans h₂

/-- A person is created under a new id, or nothing happens. -/
theorem always_createUser (id email name : String) :
    Async.always (Directory.outcomes o) (UserStore.createUser o id email name)
      (fun s' r => (s' = s ∧ ∀ user, r ≠ .ok user) ∨
        (s.users.get? id = none ∧ Affects P id s s' ∧ ∀ user, r = .ok user → user.id = id)) s := by
  unfold UserStore.createUser
  split
  · exact .inl ⟨rfl, by simp⟩
  · next email _ =>
    dsimp only
    split_ifs
    · exact .inl ⟨rfl, by simp⟩
    · exact .inl ⟨rfl, by simp⟩
    · intro s' answer h
      have haffects : Affects P id s (s.createUser id email (o.trim name) none).1 :=
          affects_createUser
      rcases hget : s.users.get? id with _ | x
      · refine .inr ⟨rfl, ?_⟩
        rcases outcomes_cases h with h | ⟨rfl, rfl | ⟨a, h⟩⟩
        · have hexec : s.createUser id email (o.trim name) none = (s', answer) := Option.some.inj h
          rw [hexec] at haffects
          refine ⟨haffects, ?_⟩
          rintro user rfl
          unfold Directory.createUser at hexec
          dsimp only at hexec
          split_ifs at hexec
          · cases hexec
          · cases hexec
            rfl
        · exact ⟨.refl _, by simp⟩
        · have hexec : s.createUser id email (o.trim name) none = (s', a) := Option.some.inj h
          rw [hexec] at haffects
          exact ⟨haffects, by simp⟩
      · have htaken : s.createUser id email (o.trim name) none = (s, .error .emailTaken) := by
          simp [Directory.createUser, hget]
        left
        rcases outcomes_cases h with h | ⟨rfl, rfl | ⟨a, h⟩⟩
        · have hexec : s.createUser id email (o.trim name) none = (s', answer) := Option.some.inj h
          rw [htaken] at hexec
          cases hexec
          exact ⟨rfl, by simp⟩
        · exact ⟨rfl, by simp⟩
        · have hexec : s.createUser id email (o.trim name) none = (s', a) := Option.some.inj h
          rw [htaken] at hexec
          cases hexec
          exact ⟨rfl, by simp⟩

end Operations

/-! ## Who may change what -/

section Rules

variable {s s' : Directory} {actor : Principal} {scope : Scope} {userId : String}
    {target : UserWithMemberships}

/-- A membership that the actor may hand out. -/
def MayHandOut (actor : Principal) (m : Membership) : Prop :=
  m.role ∉ platformRoles ∧
    (isOperator actor = false → m.role = .tenantManager ∧
      m.tenantId.any (· ∈ managedTenantIds actor) = true)

/-- The actor has got no one a platform role, has touched no one who holds one, and if they are not
an operator, no one outside the tenants that they manage. -/
structure Harmless (actor : Principal) (s s' : Directory) : Prop where
  holders : ∀ u, s'.holdsPlatformRole u = true → s.holdsPlatformRole u = true
  untouched : ∀ u, s.holdsPlatformRole u = true → Untouched s s' u
  within : isOperator actor = false → ∀ u, (s.users.get? u).isSome →
    Untouched s s' u ∨ s.withinTenants u (managedTenantIds actor) = true
  grants : isOperator actor = false → ∀ m ∈ s'.memberships.values, m ∈ s.memberships.values ∨
    m.role = .tenantManager ∧ m.tenantId.any (· ∈ managedTenantIds actor) = true

theorem Harmless.refl (actor : Principal) (s : Directory) : Harmless actor s s :=
  ⟨fun _ h => h, fun u _ => .refl s u, fun _ u _ => .inl (.refl s u), fun _ _ hm => .inl hm⟩

theorem holdsPlatformRole_iff {u : String} :
    s.holdsPlatformRole u = true ↔ ∃ m ∈ s.memberships.values, m.userId = u ∧
      m.role ∈ platformRoles := by
  simp [Directory.holdsPlatformRole]

/-- Whoever belongs wholly to the tenants holds no platform role. -/
theorem not_holds_of_withinTenants {tenantIds : List String}
    (h : s.withinTenants userId tenantIds = true) : s.holdsPlatformRole userId = false := by
  rw [Bool.eq_false_iff]
  intro hholds
  obtain ⟨m, hm, hu, hrole⟩ := holdsPlatformRole_iff.1 hholds
  simp only [Directory.withinTenants, Bool.and_eq_true, List.all_eq_true, Bool.or_eq_true,
    decide_eq_true_eq] at h
  rcases h.2 m hm with hne | ⟨hmanager, -⟩
  · exact hne hu
  · rw [hmanager] at hrole
    simp [platformRoles] at hrole

theorem harmless_of_affects (hholds : s.holdsPlatformRole userId = false)
    (hreach : isOperator actor = true ∨ s.withinTenants userId (managedTenantIds actor) = true ∨
      s.users.get? userId = none)
    (h : Affects (MayHandOut actor) userId s s') : Harmless actor s s' where
  holders u hu := by
    obtain ⟨m, hm, hmu, hrole⟩ := holdsPlatformRole_iff.1 hu
    rcases h.grants m hm with hm | ⟨-, hallowed⟩
    · exact holdsPlatformRole_iff.2 ⟨m, hm, hmu, hrole⟩
    · exact absurd hrole hallowed.1
  untouched u hu := h.others u fun heq => by rw [heq, hholds] at hu; cases hu
  within hop u huser := by
    by_cases hu : u = userId
    · subst hu
      rcases hreach with hreach | hreach | hreach
      · rw [hop] at hreach
        cases hreach
      · exact .inr hreach
      · rw [hreach] at huser
        cases huser
    · exact .inl (h.others u hu)
  grants hop m hm := (h.grants m hm).imp_right fun hm => hm.2.2 hop

theorem scopeOf_ok (h : scopeOf actor = .ok scope) :
    scope.operator = isOperator actor ∧ scope.systemAdmin = isSystemAdmin actor ∧
      scope.managed = managedTenantIds actor := by
  unfold scopeOf at h
  split at h
  · cases h
  · dsimp only at h
    split_ifs at h
    · cases h
    · cases h
      exact ⟨rfl, rfl, rfl⟩

/-- What `reach` has found and `mayNotChange` does not protect. -/
structure Reached (s : Directory) (actor : Principal) (userId : String) : Prop where
  holds : s.holdsPlatformRole userId = false
  reach : isOperator actor = true ∨ s.withinTenants userId (managedTenantIds actor) = true

theorem reached (hadmin : isSystemAdmin actor = false) (hscope : scopeOf actor = .ok scope)
    (hmemberships : target.memberships = s.membershipsOf [userId])
    (hreach : scope.operator = true ∨ s.isWithinTenants userId scope.managed = true)
    (hchange : mayNotChange scope target = none) : Reached s actor userId := by
  obtain ⟨hop, hsys, hmanaged⟩ := scopeOf_ok hscope
  by_cases hactor : isOperator actor = true
  · refine ⟨?_, .inl hactor⟩
    rw [Bool.eq_false_iff]
    intro hholds
    obtain ⟨m, hm, hu, hrole⟩ := holdsPlatformRole_iff.1 hholds
    have hmem : m ∈ target.memberships := by
      rw [hmemberships]
      exact List.mem_filter.2 ⟨hm, by simp [hu]⟩
    unfold mayNotChange at hchange
    split_ifs at hchange with hsystem hoperator
    · simp only [List.any_eq_true, decide_eq_true_eq, not_exists, not_and] at hsystem
      simp only [hsys, hadmin, hop, hactor, Bool.not_false, Bool.true_and, List.any_eq_true,
        decide_eq_true_eq,
        not_exists, not_and] at hoperator
      simp only [platformRoles, List.mem_cons, List.not_mem_nil, or_false] at hrole
      exact hrole.elim (hsystem m hmem) (hoperator m hmem)
  · have hwithin : s.withinTenants userId (managedTenantIds actor) = true := by
      rcases hreach with hreach | hreach
      · exact absurd (hop ▸ hreach) hactor
      · simp only [Directory.isWithinTenants, Bool.and_eq_true] at hreach
        exact hmanaged ▸ hreach.2
    exact ⟨not_holds_of_withinTenants hwithin, .inr hwithin⟩

theorem Reached.harmless (h : Reached s actor userId)
    (haffects : Affects (MayHandOut actor) userId s s') : Harmless actor s s' :=
  harmless_of_affects h.holds (h.reach.imp_right .inl) haffects

/-- What the rules let the actor hand out. -/
theorem mayHandOut (hadmin : isSystemAdmin actor = false) (hscope : scopeOf actor = .ok scope)
    {request : MembershipRequest} (hgrant : scope.operator = true ∨ mayGrant scope request = true)
    (hrole : mayNotGrantRole scope request = none) {m : Membership} (hm : m.role = request.role)
    (htenant : m.tenantId = request.tenantId) : MayHandOut actor m := by
  obtain ⟨hop, hsys, hmanaged⟩ := scopeOf_ok hscope
  constructor
  · rw [hm]
    unfold mayNotGrantRole at hrole
    cases hr : request.role with
    | systemAdmin => simp [hr] at hrole
    | operator =>
      rw [hr, hsys, hadmin] at hrole
      dsimp only at hrole
      split_ifs at hrole with hkey hfalse
      exact absurd hfalse (by simp)
    | tenantManager => simp [platformRoles]
  · intro hactor
    rcases hgrant with hgrant | hgrant
    · rw [hop, hactor] at hgrant
      cases hgrant
    · simp only [mayGrant, Bool.and_eq_true, decide_eq_true_eq] at hgrant
      rw [hm, htenant, ← hmanaged]
      exact hgrant

end Rules

/-! ## Operations of `UserAdmin` -/

section Deeds

variable {o : PeopleOptions} {s : Directory} {actor : Principal} {userId : String}

/-- Reading is harmless. -/
theorem Reads.harmless {α : Type} {task : Task α} {P : Except StoreError α → Prop}
    (h : Reads o task s P) :
    Async.always (Directory.outcomes o) task (fun s' _ => Harmless actor s s') s :=
  Async.always_mono h fun _ _ h => h.1 ▸ Harmless.refl actor s

theorem reads_listWithMemberships (within : Option (List String)) :
    Reads o (UserStore.listWithMemberships within) s fun _ => True := by
  unfold UserStore.listWithMemberships Reads
  split_ifs
  · exact ⟨rfl, trivial⟩
  · rw [Async.always_bind]
    refine always_query rfl rfl ?_ ⟨rfl, trivial⟩
    dsimp only
    rw [Async.always_bind]
    exact always_query rfl rfl ⟨rfl, trivial⟩ ⟨rfl, trivial⟩

theorem harmless_list : Async.always (Directory.outcomes o) (UserAdmin.list actor)
    (fun s' _ => Harmless actor s s') s := by
  unfold UserAdmin.list
  split
  · exact .refl actor s
  · rw [Async.always_bind]
    refine Async.always_mono (reads_listWithMemberships _) ?_
    rintro _ (e | users) ⟨rfl, -⟩ <;> exact .refl actor _

theorem harmless_get : Async.always (Directory.outcomes o) (UserAdmin.get actor userId)
    (fun s' _ => Harmless actor s s') s := by
  unfold UserAdmin.get
  split
  · exact .refl actor s
  · next scope _ => exact (reads_reach scope userId).harmless

theorem harmless_create (ids : Nat → String) (request : CreateUserRequest)
    (hadmin : isSystemAdmin actor = false) :
    Async.always (Directory.outcomes o) (UserAdmin.create o ids actor request)
      (fun s' _ => Harmless actor s s') s := by
  unfold UserAdmin.create
  split
  · exact .refl actor s
  · next scope hscope =>
    split
    · exact .refl actor s
    · next hmay =>
      have hallowed : ∀ r ∈ request.memberships, ∀ m : Membership, m.role = r.role →
          m.tenantId = r.tenantId →
          MayHandOut actor m := by
        intro r hr m hm htenant
        unfold UserAdmin.mayNotCreate at hmay
        split_ifs at hmay with hempty hdenied
        have hrole := List.findSome?_eq_none_iff.1 hmay r hr
        refine mayHandOut hadmin hscope ?_ hrole hm htenant
        by_cases hop : scope.operator = true
        · exact .inl hop
        · simp only [hop, Bool.not_false, Bool.true_and, List.any_eq_true, Bool.not_eq_true',
            not_exists, not_and,
            Bool.not_eq_false] at hdenied
          exact .inr (hdenied r hr)
      rw [Async.always_bind]
      refine Async.always_mono (reads_validateAll request.memberships) ?_
      rintro s₀ (e | _ | invalid) ⟨hs, -⟩ <;> obtain rfl := hs.symm
      · exact .refl actor _
      · dsimp only
        rw [Async.always_bind, Async.always_tryCatch, Async.always_map]
        have hcreate : Async.always (Directory.outcomes o)
            (UserStore.createUser o (ids 0) request.email request.name)
            (fun s' r => (s' = s ∧ ∀ user, r ≠ .ok user) ∨ (s.users.get? (ids 0) = none ∧
              Affects (MayHandOut actor) (ids 0) s s' ∧ ∀ user, r = .ok user → user.id = ids 0))
                s :=
          always_createUser (ids 0) request.email request.name
        have hnew : ∀ {s'}, s.users.get? (ids 0) = none → Affects (MayHandOut actor) (ids 0) s s' →
            Harmless actor s s' := by
          intro s' hnone haffects
          refine harmless_of_affects ?_ (.inr (.inr hnone)) haffects
          rw [Bool.eq_false_iff]
          intro hholds
          obtain ⟨m, hm, hu, -⟩ := holdsPlatformRole_iff.1 hholds
          have := s.owned m hm
          rw [hu, hnone] at this
          cases this
        refine Async.always_mono hcreate ?_
        rintro s₁ (e | created) h₁
        · have hsame : Harmless actor s s₁ := by
            rcases h₁ with ⟨rfl, -⟩ | ⟨hnone, haffects, -⟩
            · exact .refl actor _
            · exact hnew hnone haffects
          refine Async.always_mono (always_fromStoreError hsame) ?_
          rintro s₂ (e | _ | created) ⟨h₂, hno⟩
          · exact h₂
          · exact h₂
          · exact absurd rfl (hno created)
        · rcases h₁ with ⟨-, hno⟩ | ⟨hnone, haffects, hid⟩
          · exact absurd rfl (hno created)
          · obtain hid := hid created rfl
            show Async.always _ (tryCatch _ _) _ s₁
            rw [Async.always_tryCatch, Async.always_map, hid]
            refine Async.always_mono (affects_equip ids scope hallowed) ?_
            rintro s₂ (e | invited) h₂
            · have hequip := haffects.trans h₂
              show Async.always _ (tryCatch _ _ >>= fun _ => UserAdmin.fromStoreError e) _ s₂
              rw [Async.always_bind, Async.always_tryCatch]
              have hdelete : Async.always (Directory.outcomes o) (await (.deleteUser (ids 0)))
                  (fun s₃ _ => Affects (MayHandOut actor) (ids 0) s₂ s₃) s₂ := by
                refine always_affects fun s₃ a h => ?_
                cases h
                exact affects_deleteUser
              refine Async.always_mono hdelete ?_
              rintro s₃ (_ | deleted) h₃ <;>
                show Async.always _ (UserAdmin.fromStoreError e : Task (Outcome Invited)) _ s₃ <;>
                exact Async.always_mono (always_fromStoreError (hnew hnone (hequip.trans h₃)))
                  fun _ _ h => h.1
            · exact hnew hnone (haffects.trans h₂)
      · exact .refl actor _

theorem harmless_setStatus (status : UserStatus) (hadmin : isSystemAdmin actor = false) :
    Async.always (Directory.outcomes o) (UserAdmin.setStatus actor userId status)
      (fun s' _ => Harmless actor s s') s := by
  unfold UserAdmin.setStatus
  split
  · exact .refl actor s
  · next scope hscope =>
    rw [Async.always_bind]
    refine Async.always_mono (reads_reach scope userId) ?_
    rintro s₀ (e | _ | target) ⟨hs, hreach⟩ <;> obtain rfl := hs.symm
    · exact .refl actor s
    · exact .refl actor s
    · obtain ⟨-, hmemberships, hreach⟩ := hreach target rfl
      dsimp only
      split_ifs
      · exact .refl actor s
      · split
        · exact .refl actor s
        · next hchange =>
          have hreached := reached hadmin hscope hmemberships hreach hchange
          rw [Async.always_bind]
          refine Async.always_mono (always_caught
            (affects_userStore_setStatus (P := MayHandOut actor) status)) ?_
          rintro s₁ (e | _ | _) h₁
          · exact hreached.harmless h₁
          · exact hreached.harmless h₁
          · refine Async.always_mono (reads_reach scope userId) ?_
            rintro s₂ r ⟨rfl, -⟩
            exact hreached.harmless h₁

theorem harmless_addMembership (ids : Nat → String) (request : MembershipRequest)
    (hadmin : isSystemAdmin actor = false) :
    Async.always (Directory.outcomes o) (UserAdmin.addMembership ids actor userId request)
      (fun s' _ => Harmless actor s s') s := by
  unfold UserAdmin.addMembership
  split
  · exact .refl actor s
  · next scope hscope =>
    rw [Async.always_bind]
    refine Async.always_mono (reads_reach scope userId) ?_
    rintro s₀ (e | _ | target) ⟨hs, hreach⟩ <;> obtain rfl := hs.symm
    · exact .refl actor s
    · exact .refl actor s
    · obtain ⟨-, hmemberships, hreach⟩ := hreach target rfl
      dsimp only
      split_ifs with hgrant hself
      · exact .refl actor s
      · exact .refl actor s
      · split
        · exact .refl actor s
        · next hdenied =>
          obtain ⟨hrole, hchange⟩ := Option.or_eq_none_iff.1 hdenied
          have hreached := reached hadmin hscope hmemberships hreach hchange
          have hmay : scope.operator = true ∨ mayGrant scope request = true := by
            by_cases hop : scope.operator = true
            · exact .inl hop
            · simpa [hop] using hgrant
          rw [Async.always_bind]
          refine Async.always_mono (reads_validateMembership request) ?_
          rintro s₁ (e | _ | invalid) ⟨hs, -⟩ <;> obtain rfl := hs.symm
          · exact .refl actor s
          · refine Async.always_mono
              (always_caught (affects_userStore_addMembership fun m hm htenant =>
              mayHandOut hadmin hscope hmay hrole hm htenant)) ?_
            exact fun s₂ _ h₂ => hreached.harmless h₂
          · exact .refl actor s

theorem harmless_removeMembership (membershipId : String) (hadmin : isSystemAdmin actor = false) :
    Async.always (Directory.outcomes o) (UserAdmin.removeMembership actor userId membershipId)
      (fun s' _ => Harmless actor s s') s := by
  unfold UserAdmin.removeMembership
  split
  · exact .refl actor s
  · next scope hscope =>
    rw [Async.always_bind]
    refine Async.always_mono (reads_reach scope userId) ?_
    rintro s₀ (e | _ | target) ⟨hs, hreach⟩ <;> obtain rfl := hs.symm
    · exact .refl actor s
    · exact .refl actor s
    · obtain ⟨-, hmemberships, hreach⟩ := hreach target rfl
      dsimp only
      split
      · exact .refl actor s
      · split_ifs
        · exact .refl actor s
        · split
          · exact .refl actor s
          · next hchange =>
            have hreached := reached hadmin hscope hmemberships hreach hchange
            rw [Async.always_bind]
            refine Async.always_mono (always_caught
              (affects_userStore_removeMembership (P := MayHandOut actor) membershipId)) ?_
            rintro s₁ (e | _ | _) h₁ <;> exact hreached.harmless h₁

theorem harmless_reinvite (ids : Nat → String) (hadmin : isSystemAdmin actor = false) :
    Async.always (Directory.outcomes o) (UserAdmin.reinvite ids actor userId)
      (fun s' _ => Harmless actor s s') s := by
  unfold UserAdmin.reinvite
  split
  · exact .refl actor s
  · next scope hscope =>
    rw [Async.always_bind]
    refine Async.always_mono (reads_reach scope userId) ?_
    rintro s₀ (e | _ | target) ⟨hs, hreach⟩ <;> obtain rfl := hs.symm
    · exact .refl actor s
    · exact .refl actor s
    · obtain ⟨-, hmemberships, hreach⟩ := hreach target rfl
      dsimp only
      split_ifs
      · exact .refl actor s
      · split
        · exact .refl actor s
        · next hchange =>
          have hreached := reached hadmin hscope hmemberships hreach hchange
          have hinvite : Async.always (Directory.outcomes o)
              (await (.createInvite (ids 1) userId (ids 2) scope.actor))
              (fun s₁ _ => Affects (MayHandOut actor) userId s s₁) s := by
            refine always_affects fun s₁ a h => ?_
            obtain rfl : (s.createInvite o (ids 1) userId (ids 2) scope.actor).1 = s₁ :=
              congrArg Prod.fst (Option.some.inj h)
            exact affects_createInvite
          rw [Async.always_bind]
          refine Async.always_mono hinvite ?_
          rintro s₁ (e | invite) h₁ <;> exact hreached.harmless h₁

end Deeds

/-! ## Sequences of operations -/

/-- A request of the actor is run to its end, whatever fails on the way. -/
def Acts (o : PeopleOptions) (actor : Principal) (s s' : Directory) : Prop :=
  ∃ (ids : Nat → String) (request : PeopleRequest) (r : Except StoreError Unit),
    Process.Ends (Directory.outcomes o) (request.perform o ids actor).run s s' r

/-- Any number of requests of actors who are not system admins, one after the other. -/
def Administered (o : PeopleOptions) : Directory → Directory → Prop :=
  Relation.ReflTransGen fun s s' => ∃ actor, isSystemAdmin actor = false ∧ Acts o actor s s'

section Sequences

variable {o : PeopleOptions} {s s' s'' : Directory} {actor : Principal}

theorem harmless_perform (ids : Nat → String) (request : PeopleRequest)
    (hadmin : isSystemAdmin actor = false) :
    Async.always (Directory.outcomes o) (request.perform o ids actor)
      (fun s' _ => Harmless actor s s') s := by
  cases request with
  | list => exact Async.always_map.2 harmless_list
  | get userId => exact Async.always_map.2 harmless_get
  | create request => exact Async.always_map.2 (harmless_create ids request hadmin)
  | setStatus userId status => exact Async.always_map.2 (harmless_setStatus status hadmin)
  | addMembership userId request =>
    exact Async.always_map.2 (harmless_addMembership ids request hadmin)
  | removeMembership userId membershipId =>
    exact Async.always_map.2 (harmless_removeMembership membershipId hadmin)
  | reinvite userId => exact Async.always_map.2 (harmless_reinvite ids hadmin)

theorem Acts.harmless (hadmin : isSystemAdmin actor = false) (h : Acts o actor s s') :
    Harmless actor s s' := by
  obtain ⟨ids, request, r, hends⟩ := h
  exact (Process.always_iff _).1 (harmless_perform ids request hadmin) s' r hends

theorem Administered.keeps (h : Administered o s s') :
    (∀ u, s'.holdsPlatformRole u = true → s.holdsPlatformRole u = true) ∧
      ∀ u, s.holdsPlatformRole u = true → s'.holdsPlatformRole u = true ∧ Untouched s s' u := by
  induction h with
  | refl => exact ⟨fun _ h => h, fun u h => ⟨h, .refl s u⟩⟩
  | @tail s₁ s₂ _ hstep ih =>
    obtain ⟨actor, hadmin, hacts⟩ := hstep
    have hharmless := hacts.harmless hadmin
    refine ⟨fun u hu => ih.1 u (hharmless.holders u hu), fun u hu => ?_⟩
    obtain ⟨hu₁, huntouched⟩ := ih.2 u hu
    have hsame := hharmless.untouched u hu₁
    refine ⟨?_, huntouched.trans hsame⟩
    obtain ⟨m, hm, hmu, hrole⟩ := holdsPlatformRole_iff.1 hu₁
    have hmem : m ∈ s₁.membershipsOf [u] := List.mem_filter.2 ⟨hm, by simp [hmu]⟩
    rw [← hsame.memberships] at hmem
    exact holdsPlatformRole_iff.2 ⟨m, (List.mem_filter.1 hmem).1, hmu, hrole⟩

/-- Whatever actors who are not system admins do, no one gets a platform role, and no one who holds
one is changed.  An actor among them who is not an operator changes no one who has a role that is
not a manager role in a tenant that they manage, and hands out no other roles. -/
theorem no_escalation (h : Administered o s s') :
    (∀ u, s'.holdsPlatformRole u = true → s.holdsPlatformRole u = true) ∧
      (∀ u, s.holdsPlatformRole u = true → Untouched s s' u) ∧
      ∀ actor s'', isSystemAdmin actor = false → isOperator actor = false → Acts o actor s' s'' →
        (∀ m ∈ s'.memberships.values,
          ¬ (m.role = .tenantManager ∧ m.tenantId.any (· ∈ managedTenantIds actor) = true) →
            Untouched s' s'' m.userId) ∧
        ∀ m ∈ s''.memberships.values, m ∈ s'.memberships.values ∨
          m.role = .tenantManager ∧ m.tenantId.any (· ∈ managedTenantIds actor) = true := by
  refine ⟨h.keeps.1, fun u hu => (h.keeps.2 u hu).2, fun actor s'' hadmin hop hacts => ?_⟩
  have hharmless := hacts.harmless hadmin
  refine ⟨fun m hm houtside => ?_, hharmless.grants hop⟩
  refine (hharmless.within hop m.userId (s'.owned m hm)).resolve_right fun hwithin => houtside ?_
  simp only [Directory.withinTenants, Bool.and_eq_true, List.all_eq_true, Bool.or_eq_true,
    decide_eq_true_eq] at hwithin
  exact (hwithin.2 m hm).resolve_left fun hne => hne rfl

end Sequences

/-- Texts as they are, and lifetimes of 1000. -/
def plainOptions : PeopleOptions where
  hash := id
  hash_injective := Function.injective_id
  inviteTtlMs := 1000
  sessionIdleMs := 1000
  sessionMaxMs := 1000
  normalizeEmail := some
  trim := id
  verify password hash := hash = some password
  hashPassword := some

/-- Ann is an operator, Meg manages the tenant north. -/
def office : Directory where
  users := .ofList [{ id := "ann", email := "ann@office", name := "Ann", createdAt := 0 },
    { id := "meg", email := "meg@office", name := "Meg", passwordHash := some "secret",
      createdAt := 0 }]
  memberships := .ofList [⟨"ann-operator", "ann", .operator, none, 0⟩,
    ⟨"meg-north", "meg", .tenantManager, some "north", 0⟩]
  tenants := ["north"]
  owned := by decide

/-- Meg's principal. -/
def meg : Principal :=
  .user { id := "meg", email := "meg@office", name := "Meg", createdAt := 0 }
    [⟨"meg-north", "meg", .tenantManager, some "north", 0⟩]

/-- Random texts for a request. -/
def someIds : Nat → String
  | 0 => "new user"
  | 1 => "new invite"
  | 2 => "0123456789012345678901234567890123456789abc"
  | _ => "new membership"

/-- Meg creates a manager of her tenant; Ann remains the only one with a platform role. -/
theorem no_escalation_office : ∃ s' : Directory, (s'.users.get? "new user").isSome ∧
    ∀ u, s'.holdsPlatformRole u = true → office.holdsPlatformRole u = true := by
  have hrun : ((PeopleRequest.perform plainOptions someIds meg
      (.create
        { email := "bob@office", name := "Bob"
          memberships := [⟨.tenantManager, some "north"⟩] })).run.play
        (Directory.outcomes plainOptions) (List.replicate 8 0) office).any
          (fun r => (r.1.users.get? "new user").isSome) = true := by decide +kernel
  obtain ⟨⟨s', r⟩, hplay, hthere⟩ := (Option.any_eq_true ..).1 hrun
  have hacts : Acts plainOptions meg office s' := ⟨_, _, r, .of_play hplay⟩
  exact ⟨s', hthere, (no_escalation (.single ⟨meg, by decide, hacts⟩)).1⟩

end NexusWorkflow.People
