import NexusWorkflow.Proof.Escalation

/-!
# The last administrator

Whether an active operator or system admin remains.  A transaction under the advisory lock checks it
before it takes something away; the deletion of a half-created person does not.
-/

namespace NexusWorkflow.People

/-! ## Active administrators -/

/-- The user keeps a platform role when the removal has taken place. -/
def Removal.Leaves (s : Directory) (v : String) : Removal → Prop
  | .access u => v ≠ u
  | .membership u membershipId => v = u → s.holdsPlatformRole v (some membershipId) = true

instance (s : Directory) (v : String) (r : Removal) : Decidable (r.Leaves s v) := by
  unfold Removal.Leaves
  split <;> infer_instance

namespace Directory

/-- The user is an active administrator, and is one when the transaction that holds the lock has
ended. -/
def Remains (s : Directory) (v : String) : Prop :=
  s.isActiveAdmin v = true ∧ ∀ r ∈ s.lock, r.Leaves s v

instance (s : Directory) (v : String) : Decidable (s.Remains v) := by unfold Remains; infer_instance

/-- There is an active operator or system admin. -/
def Administrable (s : Directory) : Prop := ∃ x ∈ s.users.values, s.isActiveAdmin x.id = true

instance (s : Directory) : Decidable s.Administrable := by unfold Administrable; infer_instance

/-- If there is one, there is one that remains. -/
def Secured (s : Directory) : Prop := s.Administrable → ∃ v, s.Remains v

end Directory

variable {o : PeopleOptions} {s s' : Directory} {u v : String}

theorem holdsPlatformRole_except_iff {id : String} :
    s.holdsPlatformRole u (some id) = true ↔
      ∃ m ∈ s.memberships.values, m.userId = u ∧ m.role ∈ platformRoles ∧ m.id ≠ id := by
  simp [Directory.holdsPlatformRole, and_assoc]

theorem isActive_iff : s.isActive u = true ↔ ∃ x, s.users.get? u = some x ∧ x.status = .active := by
  simp [Directory.isActive, Option.any_eq_true]

theorem isActiveAdmin_iff :
    s.isActiveAdmin u = true ↔ s.holdsPlatformRole u = true ∧ s.isActive u = true := by
  simp [Directory.isActiveAdmin]

theorem administrable_iff : s.Administrable ↔ ∃ v, s.isActiveAdmin v = true := by
  constructor
  · rintro ⟨x, -, hx⟩
    exact ⟨x.id, hx⟩
  · rintro ⟨v, hv⟩
    obtain ⟨x, hx, -⟩ := isActive_iff.1 (isActiveAdmin_iff.1 hv).2
    exact ⟨x, KeyedMap.mem_of_get? hx, by rw [KeyedMap.key_of_get? hx, hv]⟩

/-- Without a transaction under the lock, nothing is about to go. -/
theorem secured_of_unlocked (h : s.lock = none) : s.Secured := by
  intro hs
  obtain ⟨v, hv⟩ := administrable_iff.1 hs
  exact ⟨v, hv, by simp [h]⟩

/-- What a step has to keep. -/
structure StaysSecured (s s' : Directory) : Prop where
  secured : s'.Secured
  administrable : s.Administrable → s'.Administrable

/-- The same roles and the same active administrators, under the same lock. -/
structure SameAdmins (s s' : Directory) : Prop where
  memberships : s'.memberships = s.memberships
  active : ∀ v, s'.isActiveAdmin v = s.isActiveAdmin v
  lock : s'.lock = s.lock

theorem SameAdmins.staysSecured (h : SameAdmins s s') (hs : s.Secured) : StaysSecured s s' := by
  have hadmin : s'.Administrable ↔ s.Administrable := by
    rw [administrable_iff, administrable_iff]
    exact exists_congr fun v => by rw [h.active v]
  refine ⟨fun hs' => ?_, hadmin.2⟩
  obtain ⟨v, hv, hleaves⟩ := hs (hadmin.1 hs')
  refine ⟨v, by rw [h.active v, hv], fun r hr => ?_⟩
  have hr := hleaves r (h.lock ▸ hr)
  cases r with
  | access u => exact hr
  | membership u id =>
    intro hvu
    have := hr hvu
    unfold Directory.holdsPlatformRole at this ⊢
    rw [h.memberships]
    exact this

theorem SameAdmins.refl (s : Directory) : SameAdmins s s := ⟨rfl, fun _ => rfl, rfl⟩

/-- Other tables and the status of no one. -/
theorem sameAdmins_of_tables (hmemberships : s'.memberships = s.memberships)
    (hlock : s'.lock = s.lock) (hactive : ∀ v, s'.isActive v = s.isActive v) : SameAdmins s s' where
  memberships := hmemberships
  active v := by
    unfold Directory.isActiveAdmin Directory.holdsPlatformRole
    rw [hmemberships, hactive v]
  lock := hlock

/-- A row that is written anew with the same status. -/
theorem sameAdmins_of_row {x y : User} (hmemberships : s'.memberships = s.memberships)
    (hlock : s'.lock = s.lock) (husers : s'.users = s.users.set y)
    (hget : s.users.get? y.id = some x) (hstatus : y.status = x.status) : SameAdmins s s' := by
  refine sameAdmins_of_tables hmemberships hlock fun v => ?_
  unfold Directory.isActive
  rw [husers, KeyedMap.get?_set]
  split_ifs with hv
  · rw [← hv, hget]
    simp [hstatus]
  · rfl

/-- A person who is new holds no role yet. -/
theorem sameAdmins_createUser {id email name : String} {passwordHash : Option String} :
    SameAdmins s (s.createUser id email name passwordHash).1 := by
  unfold Directory.createUser
  dsimp only
  split_ifs with htaken
  · exact .refl s
  · refine ⟨rfl, fun v => ?_, rfl⟩
    have hnone : s.users.get? id = none := by simpa using (not_or.1 htaken).1
    by_cases hv : v = id
    · subst hv
      have hholds : s.holdsPlatformRole v = false := by
        rw [Bool.eq_false_iff]
        intro hholds
        obtain ⟨m, hm, hmu, -⟩ := holdsPlatformRole_iff.1 hholds
        have := s.owned m hm
        rw [hmu, hnone] at this
        cases this
      unfold Directory.isActiveAdmin
      rw [hholds, Bool.false_and]
      exact Bool.and_eq_false_iff.2 (.inl hholds)
    · unfold Directory.isActiveAdmin Directory.isActive Directory.setUser
      dsimp only
      rw [KeyedMap.get?_set_of_ne _ (Ne.symm hv)]
      rfl

theorem sameAdmins_setPassword {passwordHash : String} :
    SameAdmins s (s.setPassword u passwordHash).1 := by
  unfold Directory.setPassword
  split
  · exact .refl s
  · next x hx =>
    have hrow : s.users.get? x.id = some x := KeyedMap.get?_of_mem (KeyedMap.mem_of_get? hx)
    exact sameAdmins_of_row rfl rfl rfl hrow rfl

theorem sameAdmins_recordLogin : SameAdmins s (s.recordLogin u) := by
  unfold Directory.recordLogin
  split
  · exact .refl s
  · next x hx =>
    have hrow : s.users.get? x.id = some x := KeyedMap.get?_of_mem (KeyedMap.mem_of_get? hx)
    exact sameAdmins_of_row rfl rfl rfl hrow rfl

theorem findInvite_some {token : String} {i : Invite} {x : User}
    (h : s.findInvite o token = some (i, x)) :
    i ∈ s.invites.values ∧ i.tokenHash = o.hash token ∧ i.usable s.now = true ∧
      s.isActive i.userId = true ∧
      s.users.get? i.userId = some x := by
  unfold Directory.findInvite at h
  split_ifs at h
  obtain ⟨j, hj, hx⟩ := Option.bind_eq_some_iff.1 h
  obtain ⟨y, hy, hpair⟩ := Option.map_eq_some_iff.1 hx
  cases hpair
  have hfound := List.find?_some hj
  simp only [Bool.and_eq_true, decide_eq_true_eq] at hfound
  exact ⟨List.mem_of_find?_eq_some hj, hfound.1.1, hfound.1.2, hfound.2, hy⟩

theorem sameAdmins_accept {token passwordHash : String} :
    SameAdmins s (s.accept o token passwordHash).1 := by
  unfold Directory.accept
  split
  · exact .refl s
  · next i x hx =>
    obtain ⟨-, -, -, -, hget⟩ := findInvite_some hx
    have hrow : s.users.get? x.id = some x := KeyedMap.get?_of_mem (KeyedMap.mem_of_get? hget)
    exact sameAdmins_of_row rfl rfl rfl hrow rfl

/-- Time, sessions and invites have nothing to do with it. -/
theorem sameAdmins_of_same (hmemberships : s'.memberships = s.memberships)
    (husers : s'.users = s.users) (hlock : s'.lock = s.lock) : SameAdmins s s' :=
  sameAdmins_of_tables hmemberships hlock fun v => by
    unfold Directory.isActive
    rw [husers]

/-! ## Steps that matter -/

/-- Roles and active people are only added. -/
structure Grows (s s' : Directory) : Prop where
  holds : ∀ v, s.holdsPlatformRole v = true → s'.holdsPlatformRole v = true
  except : ∀ v id, s.holdsPlatformRole v (some id) = true → s'.holdsPlatformRole v (some id) = true
  active : ∀ v, s.isActive v = true → s'.isActive v = true
  lock : s'.lock = s.lock

theorem Grows.remains (h : Grows s s') (hv : s.Remains v) : s'.Remains v := by
  obtain ⟨hadmin, hleaves⟩ := hv
  have hadmin := isActiveAdmin_iff.1 hadmin
  refine ⟨isActiveAdmin_iff.2 ⟨h.holds v hadmin.1, h.active v hadmin.2⟩, fun r hr => ?_⟩
  have hr := hleaves r (h.lock ▸ hr)
  cases r with
  | access u => exact hr
  | membership u id => exact fun hvu => h.except v id (hr hvu)

/-- If the first administrator has come, it is this user, and the lock does not concern them. -/
theorem Grows.staysSecured (h : Grows s s') (hs : s.Secured)
    (hfirst : ¬ s.Administrable → ∀ v, s'.isActiveAdmin v = true → s'.Remains v) :
    StaysSecured s s' := by
  have hkept : s.Administrable → ∃ v, s'.Remains v := fun hadmin =>
    (hs hadmin).imp fun _ hv => h.remains hv
  constructor
  · intro hs'
    by_cases hadmin : s.Administrable
    · exact hkept hadmin
    · obtain ⟨v, hv⟩ := administrable_iff.1 hs'
      exact ⟨v, hfirst hadmin v hv⟩
  · intro hadmin
    obtain ⟨v, hv⟩ := hkept hadmin
    exact administrable_iff.2 ⟨v, hv.1⟩

theorem holdsPlatformRole_mono (h : ∀ m ∈ s.memberships.values, m ∈ s'.memberships.values) :
    (∀ v, s.holdsPlatformRole v = true → s'.holdsPlatformRole v = true) ∧
      ∀ v id, s.holdsPlatformRole v (some id) = true → s'.holdsPlatformRole v (some id) = true := by
  constructor
  · intro v hv
    obtain ⟨m, hm, hrest⟩ := holdsPlatformRole_iff.1 hv
    exact holdsPlatformRole_iff.2 ⟨m, h m hm, hrest⟩
  · intro v id hv
    obtain ⟨m, hm, hrest⟩ := holdsPlatformRole_except_iff.1 hv
    exact holdsPlatformRole_except_iff.2 ⟨m, h m hm, hrest⟩

theorem staysSecured_addMembership {id : String} {role : MembershipRole} {tenantId : Option String}
    (hs : s.Secured) (hC : role ∈ platformRoles →
      s.Administrable ∨ ∀ r ∈ s.lock, r ≠ .access u ∧ r ≠ .membership u id) :
    StaysSecured s (s.addMembership id u role tenantId).1 := by
  unfold Directory.addMembership
  dsimp only
  split_ifs with hsame huser htenant
  · split <;> exact (SameAdmins.refl s).staysSecured hs
  · have hnew : id ∉ s.memberships.values.map (·.id) := by
      intro hmem
      obtain ⟨m, hm, hmid⟩ := List.mem_map.1 hmem
      refine hsame (List.any_eq_true.2 ⟨m, hm, ?_⟩)
      simp [hmid]
    have hvalues :
        ((s.setMembership { id, userId := u, role, tenantId, createdAt := s.now }
        huser).memberships).values =
        s.memberships.values ++ [{ id, userId := u, role, tenantId, createdAt := s.now }] :=
      KeyedMap.values_set_of_notMem hnew
    have hmore : ∀ m ∈ s.memberships.values,
        m ∈ (s.setMembership { id, userId := u, role, tenantId, createdAt := s.now }
          huser).memberships.values :=
      fun m hm => hvalues ▸ List.mem_append_left _ hm
    obtain ⟨hholds, hexcept⟩ := holdsPlatformRole_mono hmore
    refine Grows.staysSecured ⟨hholds, hexcept, fun v hv => hv, rfl⟩ hs fun hnone v hv => ?_
    -- the role that makes the first administrator is the new one
    have hadmin := isActiveAdmin_iff.1 hv
    obtain ⟨m, hm, hmv, hrole⟩ := holdsPlatformRole_iff.1 hadmin.1
    rw [hvalues] at hm
    rcases List.mem_append.1 hm with hm | hm
    · have hbefore : s.isActiveAdmin v = true :=
        isActiveAdmin_iff.2 ⟨holdsPlatformRole_iff.2 ⟨m, hm, hmv, hrole⟩, hadmin.2⟩
      exact absurd (administrable_iff.2 ⟨v, hbefore⟩) hnone
    · obtain rfl := List.mem_singleton.1 hm
      have hlock := (hC hrole).resolve_left hnone
      refine ⟨hv, fun r hr => ?_⟩
      obtain ⟨haccess, hmembership⟩ := hlock r hr
      cases r with
      | access x =>
        rintro rfl
        exact haccess (by rw [← hmv])
      | membership x id' =>
        rintro rfl
        refine holdsPlatformRole_except_iff.2
          ⟨_, hvalues ▸ List.mem_append_right _ hm, hmv, hrole, fun hid => ?_⟩
        exact hmembership (by rw [← hmv, ← hid])
  · exact (SameAdmins.refl s).staysSecured hs
  · exact (SameAdmins.refl s).staysSecured hs

theorem staysSecured_activate (hs : s.Secured) (hC : s.Administrable ∨ ∀ r ∈ s.lock, r.Leaves s u) :
    StaysSecured s (s.activate u).1 := by
  unfold Directory.activate
  split
  · exact (SameAdmins.refl s).staysSecured hs
  · next x hx =>
    have hid := KeyedMap.key_of_get? hx
    have hactive : ∀ v, (s.setUser { x with status := .active }).isActive v = true ↔
        v = u ∨ s.isActive v = true := by
      intro v
      unfold Directory.isActive Directory.setUser
      dsimp only
      rw [KeyedMap.get?_set]
      dsimp only
      rw [hid]
      by_cases hv : u = v
      · simp [hv]
      · simp [hv, Ne.symm hv]
    refine Grows.staysSecured
      ⟨fun v hv => hv, fun v id hv => hv, fun v hv => (hactive v).2 (.inr hv), rfl⟩ hs
      fun hnone v hv => ?_
    have hadmin := isActiveAdmin_iff.1 hv
    refine ⟨hv, fun r hr => ?_⟩
    rcases (hactive v).1 hadmin.2 with rfl | hv'
    · exact hC.resolve_left hnone r hr
    · have hbefore : s.isActiveAdmin v = true := isActiveAdmin_iff.2 ⟨hadmin.1, hv'⟩
      exact absurd (administrable_iff.2 ⟨v, hbefore⟩) hnone

theorem staysSecured_unlock (hs : s.Administrable → s'.Administrable) (h : s'.lock = none) :
    StaysSecured s s' :=
  ⟨secured_of_unlocked h, hs⟩

/-- Someone other than the user remains, if the check has not failed. -/
theorem exists_of_notLastAdmin {except : Option String} (h : s.notLastAdmin u except = true)
    (hs : s.Administrable) : (∃ v, v ≠ u ∧ s.isActiveAdmin v = true) ∨
      s.isActiveAdmin u = true ∧ except.isSome ∧ s.holdsPlatformRole u except = true := by
  obtain ⟨w, hw⟩ := administrable_iff.1 hs
  by_cases hother : s.otherActiveAdmins u = true
  · left
    simp only [Directory.otherActiveAdmins, List.any_eq_true, Bool.and_eq_true,
      decide_eq_true_eq] at hother
    obtain ⟨m, hm, ⟨hne, hrole⟩, hactive⟩ := hother
    exact ⟨m.userId, hne, isActiveAdmin_iff.2
      ⟨holdsPlatformRole_iff.2 ⟨m, hm, rfl, hrole⟩, hactive⟩⟩
  · by_cases hu : s.isActiveAdmin u = true
    · right
      simpa [Directory.notLastAdmin, hu, hother] using h
    · left
      exact ⟨w, fun heq => hu (heq ▸ hw), hw⟩

theorem staysSecured_lock {r : Removal}
    (h : s.Administrable → ∃ v, s.isActiveAdmin v = true ∧ r.Leaves s v) :
    StaysSecured s { s with lock := some r } := by
  refine ⟨fun hs => ?_, fun hs => hs⟩
  obtain ⟨v, hv, hleaves⟩ := h hs
  exact ⟨v, hv, by rintro _ ⟨⟩; exact hleaves⟩

theorem staysSecured_lockToDisable (h : s.notLastAdmin u = true) :
    StaysSecured s { s with lock := some (.access u) } := by
  refine staysSecured_lock fun hs => ?_
  rcases exists_of_notLastAdmin h hs with ⟨v, hne, hv⟩ | ⟨-, hnone, -⟩
  · exact ⟨v, hv, hne⟩
  · cases hnone

theorem staysSecured_lockToRemove {m : Membership} (hm : s.memberships.get? m.id = some m)
    (h : m.role ∈ platformRoles → s.notLastAdmin u (some m.id) = true) :
    StaysSecured s { s with lock := some (.membership u m.id) } := by
  refine staysSecured_lock fun hs => ?_
  by_cases hrole : m.role ∈ platformRoles
  · rcases exists_of_notLastAdmin (h hrole) hs with ⟨v, hne, hv⟩ | ⟨hv, -, hkeeps⟩
    · exact ⟨v, hv, fun heq => absurd heq hne⟩
    · exact ⟨u, hv, fun _ => hkeeps⟩
  · obtain ⟨v, hv⟩ := administrable_iff.1 hs
    refine ⟨v, hv, fun heq => ?_⟩
    obtain ⟨x, hx, hxv, hxrole⟩ := holdsPlatformRole_iff.1 (isActiveAdmin_iff.1 hv).1
    refine holdsPlatformRole_except_iff.2 ⟨x, hx, hxv, hxrole, fun hid => hrole ?_⟩
    rwa [KeyedMap.eq_of_key_eq hx (KeyedMap.mem_of_get? hm) hid] at hxrole

theorem staysSecured_disable (hs : s.Secured) (hlock : s.lock = some (.access u)) :
    StaysSecured s (s.disable u).1.unlock := by
  refine staysSecured_unlock (fun hadmin => ?_) rfl
  obtain ⟨v, hv, hleaves⟩ := hs hadmin
  have hne : v ≠ u := hleaves _ hlock
  have hadmin := isActiveAdmin_iff.1 hv
  refine administrable_iff.2 ⟨v, isActiveAdmin_iff.2 ?_⟩
  unfold Directory.disable
  split
  · exact hadmin
  · next x hx =>
    refine ⟨hadmin.1, ?_⟩
    have hother := (affects_setUser (P := fun _ => True) (s := s) (u := u)
      (x := { x with status := .disabled })
      (KeyedMap.key_of_get? hx : x.id = u)).others v hne
    rw [isActive_iff] at hadmin ⊢
    exact hother.user ▸ hadmin.2

theorem staysSecured_remove {id : String} (hs : s.Secured)
    (hlock : s.lock = some (.membership u id)) : StaysSecured s (s.remove u id).1.unlock := by
  refine staysSecured_unlock (fun hadmin => ?_) rfl
  obtain ⟨v, hv, hleaves⟩ := hs hadmin
  have hleaves : v = u → s.holdsPlatformRole v (some id) = true := hleaves _ hlock
  have hadmin := isActiveAdmin_iff.1 hv
  refine administrable_iff.2 ⟨v, isActiveAdmin_iff.2 ?_⟩
  unfold Directory.remove
  split
  · exact hadmin
  · next m hm =>
    split_ifs with hu
    · refine ⟨?_, hadmin.2⟩
      have hkeeps : ∃ x ∈ s.memberships.values, x.userId = v ∧ x.role ∈ platformRoles ∧
          x.id ≠ id := by
        by_cases hvu : v = u
        · exact holdsPlatformRole_except_iff.1 (hleaves hvu)
        · obtain ⟨x, hx, hxv, hxrole⟩ := holdsPlatformRole_iff.1 hadmin.1
          refine ⟨x, hx, hxv, hxrole, fun hid => hvu ?_⟩
          have hxm := KeyedMap.eq_of_key_eq hx (KeyedMap.mem_of_get? hm)
              (hid.trans (KeyedMap.key_of_get? hm).symm)
          rw [← hxv, hxm, hu]
      obtain ⟨x, hx, hxv, hxrole, hid⟩ := hkeeps
      exact holdsPlatformRole_iff.2 ⟨x, KeyedMap.mem_erase.2 ⟨hx, hid⟩, hxv, hxrole⟩
    · exact hadmin

theorem staysSecured_deleteUser (hs : s.Secured)
    (hC : s.isActiveAdmin u = true → ∃ x ∈ s.users.values, x.id ≠ u ∧ s.Remains x.id) :
    StaysSecured s (s.deleteUser u).1 := by
  unfold Directory.deleteUser
  split_ifs
  · have hkeeps : ∀ v, v ≠ u → s.Remains v → (s.eraseUser u).Remains v := by
      intro v hne hv
      have hadmin := isActiveAdmin_iff.1 hv.1
      have hmem : ∀ m ∈ s.memberships.values, m.userId = v →
          m ∈ (s.eraseUser u).memberships.values := by
        intro m hm hmv
        exact List.mem_filter.2 ⟨hm, by simp [hmv, hne]⟩
      refine ⟨isActiveAdmin_iff.2 ⟨?_, ?_⟩, fun r hr => ?_⟩
      · obtain ⟨m, hm, hmv, hrole⟩ := holdsPlatformRole_iff.1 hadmin.1
        exact holdsPlatformRole_iff.2 ⟨m, hmem m hm hmv, hmv, hrole⟩
      · have hget : (s.eraseUser u).users.get? v = s.users.get? v :=
          KeyedMap.get?_erase_of_ne _ (Ne.symm hne)
        unfold Directory.isActive
        rw [hget]
        exact hadmin.2
      · have hr := hv.2 r hr
        cases r with
        | access x => exact hr
        | membership x id =>
          intro hvx
          obtain ⟨m, hm, hmv, hrest⟩ := holdsPlatformRole_except_iff.1 (hr hvx)
          exact holdsPlatformRole_except_iff.2 ⟨m, hmem m hm hmv, hmv, hrest⟩
    have hsome : s.Administrable → ∃ v, (s.eraseUser u).Remains v := by
      intro hadmin
      by_cases hu : s.isActiveAdmin u = true
      · obtain ⟨x, -, hne, hx⟩ := hC hu
        exact ⟨x.id, hkeeps _ hne hx⟩
      · obtain ⟨v, hv⟩ := hs hadmin
        exact ⟨v, hkeeps v (fun heq => hu (heq ▸ hv.1)) hv⟩
    constructor
    · intro hs'
      obtain ⟨v, hv⟩ := administrable_iff.1 hs'
      have hadmin := isActiveAdmin_iff.1 hv
      refine hsome (administrable_iff.2 ⟨v, isActiveAdmin_iff.2 ⟨?_, ?_⟩⟩)
      · obtain ⟨m, hm, hrest⟩ := holdsPlatformRole_iff.1 hadmin.1
        exact holdsPlatformRole_iff.2 ⟨m, (List.mem_filter.1 hm).1, hrest⟩
      · obtain ⟨x, hx, hactive⟩ := isActive_iff.1 hadmin.2
        have hne : u ≠ v := by
          rintro rfl
          exact absurd (hx.symm.trans (KeyedMap.get?_erase_self s.users u)) (by simp)
        exact isActive_iff.2 ⟨x, (KeyedMap.get?_erase_of_ne _ hne).symm.trans hx, hactive⟩
    · intro hadmin
      obtain ⟨v, hv⟩ := hsome hadmin
      exact administrable_iff.2 ⟨v, hv.1⟩
  · exact (SameAdmins.refl s).staysSecured hs

/-! ## Runs -/

/-- The deleted person is no active administrator, or another one remains.  Where there is none yet,
a role is given or an account enabled only if the transaction that holds the lock is not about to
take it away. -/
def Careful (s : Directory) : PeopleOp → Prop
  | .deleteUser u => s.isActiveAdmin u = true → ∃ x ∈ s.users.values, x.id ≠ u ∧ s.Remains x.id
  | .addMembership id u role _ =>
      role ∈ platformRoles → s.Administrable ∨ ∀ r ∈ s.lock, r ≠ .access u ∧ r ≠ .membership u id
  | .activate u => s.Administrable ∨ ∀ r ∈ s.lock, r.Leaves s u
  | _ => True

instance (s : Directory) (op : PeopleOp) : Decidable (Careful s op) := by
  unfold Careful
  split <;> infer_instance

theorem staysSecured_exec {op : PeopleOp} {a : Except StoreError op.Answer} (hs : s.Secured)
    (hC : Careful s op) (h : s.exec o op = some (s', a)) : StaysSecured s s' := by
  cases op with
  | createUser id email name passwordHash =>
    obtain rfl : (s.createUser id email name passwordHash).1 = s' :=
      congrArg Prod.fst (Option.some.inj h)
    exact sameAdmins_createUser.staysSecured hs
  | addMembership id u role tenantId =>
    obtain rfl : (s.addMembership id u role tenantId).1 = s' :=
      congrArg Prod.fst (Option.some.inj h)
    exact staysSecured_addMembership hs hC
  | activate u =>
    cases h
    exact staysSecured_activate hs hC
  | lockToDisable u =>
    simp only [Directory.exec] at h
    split_ifs at h with hlock hcheck
    · cases h
      exact staysSecured_lockToDisable hcheck
    · cases h
      exact (SameAdmins.refl s).staysSecured hs
  | disable u =>
    simp only [Directory.exec] at h
    split_ifs at h with hlock
    cases h
    exact staysSecured_disable hs hlock
  | lockToRemove u id =>
    simp only [Directory.exec] at h
    split_ifs at h with hlock
    split at h
    · cases h
      exact (SameAdmins.refl s).staysSecured hs
    · next m hm =>
      split_ifs at h with hu hcheck
      · cases h
        exact (SameAdmins.refl s).staysSecured hs
      · cases h
        exact (SameAdmins.refl s).staysSecured hs
      · cases h
        obtain rfl := KeyedMap.key_of_get? hm
        refine staysSecured_lockToRemove hm fun hrole => ?_
        simpa [hrole] using hcheck
  | remove u id =>
    simp only [Directory.exec] at h
    split_ifs at h with hlock
    cases h
    exact staysSecured_remove hs hlock
  | deleteUser u =>
    cases h
    exact staysSecured_deleteUser hs hC
  | setPassword u passwordHash =>
    cases h
    exact sameAdmins_setPassword.staysSecured hs
  | recordLogin u =>
    cases h
    exact sameAdmins_recordLogin.staysSecured hs
  | accept token passwordHash =>
    cases h
    exact sameAdmins_accept.staysSecured hs
  | createInvite id u token issuer =>
    obtain rfl : (s.createInvite o id u token issuer).1 = s' :=
      congrArg Prod.fst (Option.some.inj h)
    refine (sameAdmins_of_same ?_ ?_ ?_).staysSecured hs <;>
      · unfold Directory.createInvite
        dsimp only
        split_ifs <;> rfl
  | createSession token u revocations =>
    obtain rfl : (s.createSession o token u revocations).1 = s' :=
      congrArg Prod.fst (Option.some.inj h)
    refine (sameAdmins_of_same ?_ ?_ ?_).staysSecured hs <;>
      · unfold Directory.createSession
        dsimp only
        split_ifs <;> rfl
  | touch token =>
    cases h
    refine (sameAdmins_of_same ?_ ?_ ?_).staysSecured hs <;>
      · unfold Directory.touch
        split <;> rfl
  | destroySession token =>
    cases h
    refine (sameAdmins_of_same ?_ ?_ ?_).staysSecured hs <;>
      · unfold Directory.destroySession
        split_ifs <;> rfl
  | findById _ | findByEmail _ | findCredentials _ | tenantExists _ | listUsers _ | membershipsOf _
  | isWithinTenants _ _ | inspect _ | resolve _ =>
    cases h
    exact (SameAdmins.refl s).staysSecured hs

theorem staysSecured_rollback (op : PeopleOp) (hs : s.Secured) :
    StaysSecured s (s.rollback op) := by
  have hunlock : StaysSecured s s.unlock := staysSecured_unlock (fun hadmin => hadmin) rfl
  unfold Directory.rollback
  split
  · split_ifs
    · exact hunlock
    · exact (SameAdmins.refl s).staysSecured hs
  · split_ifs
    · exact hunlock
    · exact (SameAdmins.refl s).staysSecured hs
  · exact (SameAdmins.refl s).staysSecured hs

theorem staysSecured_outcomes {op : PeopleOp} {a : Except StoreError op.Answer} (hs : s.Secured)
    (hC : Careful s op) (h : (s', a) ∈ s.outcomes o op) : StaysSecured s s' := by
  rcases outcomes_cases h with h | ⟨-, rfl | ⟨a', h⟩⟩
  · exact staysSecured_exec hs hC h
  · exact staysSecured_rollback op hs
  · exact staysSecured_exec hs hC h

/-- In every run in which the deletions, grants and activations are careful, once there is an active
operator or system admin, there is one in every later state. -/
theorem administrator_remains {s₀ : Directory} (hlock : s₀.lock = none) {w w' : Platform}
    (hw : Platform.Leads o Careful ⟨s₀, []⟩ w) (hadmin : w.state.Administrable)
    (hw' : Platform.Leads o Careful w w') : w'.state.Administrable := by
  have hwait : ∀ (s : Directory) (ms : Nat), SameAdmins s (s.wait ms) :=
      fun s ms => sameAdmins_of_same rfl rfl rfl
  have hsecured : w.state.Secured := by
    refine World.Leads.keeps hw (secured_of_unlocked hlock) ?_ ?_
    · exact fun s op s' a hs hC h => (staysSecured_outcomes hs hC h).secured
    · exact fun s ms hs => ((hwait s ms).staysSecured hs).secured
  have hboth : w'.state.Secured ∧ w'.state.Administrable := by
    refine World.Leads.keeps (I := fun s : Directory => s.Secured ∧ s.Administrable) hw'
      ⟨hsecured, hadmin⟩ ?_ ?_
    · rintro s op s' a ⟨hs, hadmin⟩ hC h
      have := staysSecured_outcomes hs hC h
      exact ⟨this.secured, this.administrable hadmin⟩
    · rintro s ms ⟨hs, hadmin⟩
      have := (hwait s ms).staysSecured hs
      exact ⟨this.secured, this.administrable hadmin⟩
  exact hboth.2

/-- With the admin key, Bob is created as an operator and Ann is disabled. -/
def handover : List (World.Turn PeopleJob Nat) :=
  [.start (.people .adminKey someIds
      (.create { email := "bob@office", name := "Bob", memberships := [⟨.operator, none⟩] })),
    .start (.people .adminKey someIds (.setStatus "ann" .disabled)),
    .call 0 0, .call 0 0, .call 1 0, .call 1 0, .call 1 0, .call 1 0]

/-- Bob is there when Ann goes. -/
theorem administrator_remains_handover : ∃ w : Platform,
    w.state.isActive "ann" = false ∧ w.state.Administrable := by
  have hrun : ((⟨office, []⟩ : Platform).plays (Directory.outcomes plainOptions)
      (PeopleJob.program plainOptions)
      Directory.wait Careful handover).any (fun w => w.state.isActive "ann" = false) = true := by
    decide +kernel
  obtain ⟨w, hplay, hann⟩ := (Option.any_eq_true ..).1 hrun
  refine ⟨w, of_decide_eq_true hann, ?_⟩
  exact administrator_remains rfl .refl (by decide +kernel : office.Administrable) (.of_plays hplay)

/-- Bob's invite fails, and Bob goes again. -/
theorem not_administrator_remains :
    ¬ ∀ (o : PeopleOptions) (s₀ : Directory), s₀.lock = none → s₀.Administrable →
      ∀ w : Platform, Platform.Leads o anyPeopleOp ⟨s₀, []⟩ w → w.state.Administrable := by
  intro h
  have hrun : ((⟨office, []⟩ : Platform).plays (Directory.outcomes plainOptions)
      (PeopleJob.program plainOptions)
      Directory.wait anyPeopleOp (handover ++ [.call 0 1, .call 0 0])).any
        (fun w => decide ¬ w.state.Administrable) = true := by
    decide +kernel
  obtain ⟨w, hplay, hgone⟩ := (Option.any_eq_true ..).1 hrun
  exact of_decide_eq_true hgone (h plainOptions office rfl (by decide +kernel) w (.of_plays hplay))

end NexusWorkflow.People
