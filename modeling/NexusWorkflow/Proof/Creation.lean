import NexusWorkflow.Lib.Machines
import NexusWorkflow.Model.Creation
import NexusWorkflow.Proof.LastAdmin

/-!
# A person is created as a whole

`create` alone: if it returns the person, everything is stored, and if not, nothing is.  And among
others: no one sees a person with a role whose creation fails.  Both hold as long as no call fails
that has taken effect on its own, and no one looks at the person before the call that fails.
-/

namespace NexusWorkflow.People

open UserAdmin (mayNotCreate validateAll grantAll equip fromStoreError)

variable {o : PeopleOptions} {ids : Nat → String} {actor : Principal} {request : CreateUserRequest}

/-! ## What is promised -/

/-- The foreign key of the table of invites. -/
def Directory.Referenced (s : Directory) : Prop :=
  ∀ i ∈ s.invites.values, (s.users.get? i.userId).isSome = true

instance (s : Directory) : Decidable s.Referenced := by unfold Directory.Referenced; infer_instance

/-- The user holds the roles that were asked for, each once, and no other. -/
structure HoldsExactly (memberships : List Membership) (requests : List MembershipRequest) :
    Prop where
  asked : ∀ role tenantId, (∃ m ∈ memberships, m.role = role ∧ m.tenantId = tenantId) ↔
    ∃ request ∈ requests, request.role = role ∧ request.tenantId = tenantId
  once : ∀ m ∈ memberships, ∀ m' ∈ memberships, m.role = m'.role → m.tenantId = m'.tenantId → m = m'

structure Stored (o : PeopleOptions) (userId : String) (actor : Principal)
    (request : CreateUserRequest) (r r' : Records) (invited : Invited) : Prop where
  id : invited.user.user.id = userId
  new : r.directory.users.get? userId = none
  users : r'.directory.users = r.directory.users.set invited.user.user
  email : o.normalizeEmail request.email = some invited.user.user.email
  name : invited.user.user.name = o.trim request.name
  memberships : invited.user.memberships = r'.directory.membershipsOf [userId]
  roles : HoldsExactly invited.user.memberships request.memberships
  invite : ∃ i, (r'.directory.invites.values.filter fun i => i.userId = userId) = [i] ∧
    i.usable r'.directory.now = true ∧ i.tokenHash = o.hash invited.invite.token
  others : r'.directory.memberships.keep (fun m => m.userId ≠ userId) = r.directory.memberships ∧
    r'.directory.invites.keep (fun i => i.userId ≠ userId) = r.directory.invites
  audit : r'.audit = r.audit ++ [Audited.creationEntry actor invited.user.user request.memberships]

structure Unchanged (r r' : Records) : Prop where
  users : r'.directory.users = r.directory.users
  memberships : r'.directory.memberships = r.directory.memberships
  invites : r'.directory.invites = r.directory.invites
  audit : r'.audit = r.audit

structure AllOrNothing (o : PeopleOptions) (userId : String) (actor : Principal)
    (request : CreateUserRequest) (r r' : Records) (result : Except StoreError (Outcome Invited)) :
    Prop where
  all : ∀ invited, result = .ok (.ok invited) → Stored o userId actor request r r' invited
  nothing : (∀ invited, result ≠ .ok (.ok invited)) → Unchanged r r'

/-! ## What may come of a call -/

/-- The clean-up delete succeeds, as far as the table goes. -/
def Directory.cleaned (o : PeopleOptions) (s : Directory) :
    (op : PeopleOp) → List (Directory × Except StoreError op.Answer)
  | .deleteUser userId => [((s.deleteUser userId).1, .ok (s.deleteUser userId).2),
      ((s.deleteUser userId).1, .error .other)]
  | op => s.outcomes o op

/-- And a person is not created by a call that fails. -/
def Directory.steady (o : PeopleOptions) (s : Directory) :
    (op : PeopleOp) → List (Directory × Except StoreError op.Answer)
  | .createUser id email name passwordHash =>
    [s.createUser id email name passwordHash, (s, .error .other)]
  | op => s.cleaned o op

def Records.cleaned (o : PeopleOptions) (r : Records) :
    (op : RecordOp) → List (Records × Except StoreError op.Answer)
  | .people op => (r.directory.cleaned o op).map fun (directory, answer) =>
    ({ r with directory }, answer)
  | .recordStrict entry => r.outcomes o (.recordStrict entry)

/-- And an entry is not written by a call that fails. -/
def Records.steady (o : PeopleOptions) (r : Records) :
    (op : RecordOp) → List (Records × Except StoreError op.Answer)
  | .people op => (r.directory.steady o op).map fun (directory, answer) =>
    ({ r with directory }, answer)
  | .recordStrict entry => [({ r with audit := r.audit ++ [entry] }, .ok ()), (r, .error .other)]

section Alone

variable {s s' : Directory} {r r' : Records}

theorem steady_subset (s : Directory) (op : PeopleOp) (x : Directory × Except StoreError op.Answer)
    (h : x ∈ s.steady o op) : x ∈ s.outcomes o op := by
  cases op
  case createUser id email name passwordHash =>
    rcases List.mem_cons.1 h with rfl | h
    · exact List.mem_cons_self
    · rw [List.mem_singleton.1 h]
      exact List.mem_cons_of_mem _ List.mem_cons_self
  case deleteUser userId =>
    rcases List.mem_cons.1 h with rfl | h
    · exact List.mem_cons_self
    · rw [List.mem_singleton.1 h]
      exact List.mem_cons_of_mem _ (List.mem_cons_of_mem _ List.mem_cons_self)
  all_goals exact h

theorem part_steady (r : Records) (op : PeopleOp) (r' : Records)
    (answer : Except StoreError op.Answer) (h : (r', answer) ∈ r.steady o (.people op)) :
    (r'.directory, answer) ∈ r.directory.steady o op ∧ r'.audit = r.audit := by
  obtain ⟨⟨directory, a⟩, hmem, heq⟩ := List.mem_map.1 h
  cases heq
  exact ⟨hmem, rfl⟩

/-- A function on the tables, run with the audit log. -/
theorem always_onPeople {α : Type} {task : Task α} {Q : Directory → Except StoreError α → Prop}
    (h : Async.always (Directory.steady o) task Q r.directory) :
    Async.always (Records.steady o) (Audited.onPeople task)
      (fun r' a => Q r'.directory a ∧ r'.audit = r.audit) r :=
  Async.always_lift Records.directory Records.audit h part_steady

/-- A call leaves what its execution or its failure leaves, and returns what its execution
returns. -/
theorem always_call {op : PeopleOp} {Q : Directory → Except StoreError op.Answer → Prop}
    (hexec : ∀ s' answer, s.exec o op = some (s', answer) → Q s' answer ∧ Q s' (.error .other))
    (hfailed : Q (s.rollback op) (.error .other)) :
    Async.always (Directory.steady o) (await op) Q s := by
  intro s' answer h
  rcases outcomes_cases (steady_subset s op _ h) with h | ⟨rfl, rfl | ⟨a, h⟩⟩
  · exact (hexec s' answer h).1
  · exact hfailed
  · exact (hexec s' a h).2

/-! ## The person and what they are given -/

/-- All that has been added belongs to the new user. -/
structure Adds (user : User) (s s' : Directory) : Prop where
  users : s'.users = s.users.set user
  memberships : s'.memberships.keep (fun m => m.userId ≠ user.id) = s.memberships
  invites : s'.invites.keep (fun i => i.userId ≠ user.id) = s.invites
  now : s'.now = s.now

namespace Adds

variable {user : User}

theorem get? (h : Adds user s s') : s'.users.get? user.id = some user := by
  rw [h.users]
  exact KeyedMap.get?_set_self _ _

theorem start (hnew : s.users.get? user.id = none) (hreferenced : s.Referenced) :
    Adds user s (s.setUser user) where
  users := rfl
  memberships := KeyedMap.keep_eq_self fun m hm => by
    have howned := s.owned m hm
    simp only [decide_eq_true_eq]
    rintro heq
    rw [heq, hnew] at howned
    cases howned
  invites := KeyedMap.keep_eq_self fun i hi => by
    have howned := hreferenced i hi
    simp only [decide_eq_true_eq]
    rintro heq
    rw [heq, hnew] at howned
    cases howned
  now := rfl

/-- The clean-up delete. -/
theorem deleted (h : Adds user s s') (hnew : s.users.get? user.id = none) :
    (s'.deleteUser user.id).1.users = s.users ∧
    (s'.deleteUser user.id).1.memberships = s.memberships ∧
      (s'.deleteUser user.id).1.invites = s.invites := by
  have hthere : (s'.users.get? user.id).isSome = true := by
    rw [h.get?]
    rfl
  unfold Directory.deleteUser
  rw [if_pos hthere]
  refine ⟨?_, h.memberships, h.invites⟩
  change s'.users.erase user.id = s.users
  rw [h.users, KeyedMap.erase_set hnew]

end Adds

/-- What a grant that succeeds does: nothing, if the user has the role already. -/
theorem addMembership_cases (s : Directory) (id u : String) (role : MembershipRole)
    (tenantId : Option String) : (s.addMembership id u role tenantId).1 = s ∧
      (∀ m, (s.addMembership id u role tenantId).2 = .ok m →
        ∃ m ∈ s.memberships.values, m.userId = u ∧ m.role = role ∧ m.tenantId = tenantId) ∨
    ∃ (m : Membership) (h : (s.users.get? m.userId).isSome = true), m.userId = u ∧ m.role = role ∧
      m.tenantId = tenantId ∧
      s.memberships.get? m.id = none ∧
        (s.addMembership id u role tenantId).1 = s.setMembership m h ∧
      ∀ x ∈ s.memberships.values, x.userId = u → x.role = role → x.tenantId ≠ tenantId := by
  unfold Directory.addMembership
  dsimp only
  split_ifs with hany hthere htenant
  · split
    · rename_i existing hfind
      refine .inl ⟨rfl, fun m _ => ⟨existing, List.mem_of_find?_eq_some hfind, ?_⟩⟩
      have hsame := List.find?_some hfind
      simp only [Bool.and_eq_true, decide_eq_true_eq] at hsame
      exact ⟨hsame.1.1, hsame.1.2, hsame.2⟩
    · exact .inl ⟨rfl, fun m heq => by cases heq⟩
  · refine .inr ⟨⟨id, u, role, tenantId, s.now⟩, hthere, rfl, rfl, rfl, ?_, rfl,
      fun x hx hu hrole htenantId => ?_⟩
    · refine KeyedMap.get?_eq_none_iff.2 fun x hx hid => hany ?_
      exact List.any_eq_true.2 ⟨x, hx, by simp only [hid, decide_true, Bool.true_or]⟩
    · exact hany (List.any_eq_true.2 ⟨x, hx, by simp [hu, hrole, htenantId]⟩)
  · exact .inl ⟨rfl, fun m heq => by cases heq⟩
  · exact .inl ⟨rfl, fun m heq => by cases heq⟩

theorem invites_addMembership (s : Directory) (id u : String) (role : MembershipRole)
    (tenantId : Option String) : (s.addMembership id u role tenantId).1.invites = s.invites := by
  rcases addMembership_cases s id u role tenantId with ⟨hsame, -⟩ | ⟨m, hthere, -, -, -, -, hset, -⟩
  · rw [hsame]
  · rw [hset]
    rfl

namespace Adds

variable {user : User}

theorem addMembership {id : String} {role : MembershipRole} {tenantId : Option String}
    (h : Adds user s s') : Adds user s (s'.addMembership id user.id role tenantId).1 := by
  rcases addMembership_cases s' id user.id role tenantId
    with ⟨hsame, -⟩ | ⟨m, hthere, hu, -, -, hnew, hset, -⟩
  · rw [hsame]
    exact h
  · rw [hset]
    refine ⟨h.users, ?_, h.invites, h.now⟩
    rw [← h.memberships]
    exact KeyedMap.keep_set hnew (by simp [hu])

theorem createInvite {id token : String} {issuer : Identity} (h : Adds user s s') :
    Adds user s (s'.createInvite o id user.id token issuer).1 := by
  unfold Directory.createInvite
  dsimp only
  split_ifs with htaken
  · exact h
  · refine ⟨h.users, h.memberships, ?_, h.now⟩
    have hnew : (s'.invites.keep fun i => !(i.userId = user.id && i.usedAt.isNone)).get? id =
        none := by
      refine KeyedMap.get?_eq_none_iff.2 fun i hi hid => htaken (.inr ?_)
      exact List.any_eq_true.2 ⟨i, hi, by simp [hid]⟩
    rw [← h.invites]
    refine (KeyedMap.keep_set hnew (by simp)).trans (KeyedMap.keep_keep fun i _ hi => ?_)
    have hne : i.userId ≠ user.id := by simpa using hi
    simp [hne]

end Adds

/-- The only invite of the user. -/
theorem invites_createInvite (s : Directory) (id u token : String) (issuer : Identity)
    {invite : NewInvite} (hunused : ∀ i ∈ s.invites.values, i.userId ≠ u) (httl : 0 < o.inviteTtlMs)
    (hok : (s.createInvite o id u token issuer).2 = .ok invite) :
    ∃ i, ((s.createInvite o id u token issuer).1.invites.values.filter fun i => i.userId = u) =
      [i] ∧
      i.usable (s.createInvite o id u token issuer).1.now = true ∧
        i.tokenHash = o.hash invite.token := by
  unfold Directory.createInvite at hok ⊢
  dsimp only at hok ⊢
  split_ifs at hok ⊢ with htaken
  cases hok
  have hkeep : (s.invites.keep fun i => !(i.userId = u && i.usedAt.isNone)) = s.invites :=
    KeyedMap.keep_eq_self fun i hi => by simp [hunused i hi]
  rw [hkeep] at htaken ⊢
  have hnew : id ∉ s.invites.values.map Invite.id := fun hmem => by
    obtain ⟨i, hi, hid⟩ := List.mem_map.1 hmem
    exact htaken (.inr (List.any_eq_true.2 ⟨i, hi, by simp [hid]⟩))
  refine ⟨{ id, userId := u, tokenHash := o.hash token, expiresAt := s.now +
    o.inviteTtlMs, issuer }, ?_, ?_, rfl⟩
  · rw [KeyedMap.values_set_of_notMem hnew, List.filter_append,
      List.filter_eq_nil_iff.2 fun i hi => by simpa using hunused i hi]
    simp
  · have hlater : ∀ now ttl : Int, 0 < ttl → now < now + ttl := fun now ttl hpos => by omega
    simp only [Invite.usable, Option.isNone_none, Bool.true_and, decide_eq_true_eq]
    exact hlater s.now o.inviteTtlMs httl

/-! ## The calls of `create` -/

theorem HoldsExactly.add {memberships : List Membership} {requests : List MembershipRequest}
    {request : MembershipRequest} {m : Membership} (h : HoldsExactly memberships requests)
    (hrole : m.role = request.role) (htenant : m.tenantId = request.tenantId)
    (hnew : ∀ x ∈ memberships, x.role = request.role → x.tenantId ≠ request.tenantId) :
    HoldsExactly (memberships ++ [m]) (requests ++ [request]) := by
  refine ⟨fun role tenantId => ?_, fun x hx y hy hr ht => ?_⟩
  · simp only [List.mem_append, List.mem_singleton, or_and_right, exists_or, h.asked role tenantId,
      exists_eq_left,
      hrole, htenant]
  · rcases List.mem_append.1 hx with hx | hx <;> rcases List.mem_append.1 hy with hy | hy
    · exact h.once x hx y hy hr ht
    · rw [List.mem_singleton.1 hy] at hr ht
      exact absurd (ht.trans htenant) (hnew x hx (hr.trans hrole))
    · rw [List.mem_singleton.1 hx] at hr ht
      exact absurd (ht.symm.trans htenant) (hnew y hy (hr.symm.trans hrole))
    · exact (List.mem_singleton.1 hx).trans (List.mem_singleton.1 hy).symm

theorem HoldsExactly.again {memberships : List Membership} {requests : List MembershipRequest}
    {request : MembershipRequest} (h : HoldsExactly memberships requests)
    (hthere : ∃ m ∈ memberships, m.role = request.role ∧ m.tenantId = request.tenantId) :
    HoldsExactly memberships (requests ++ [request]) := by
  refine ⟨fun role tenantId => ?_, h.once⟩
  rw [h.asked role tenantId]
  constructor
  · rintro ⟨q, hq, hrest⟩
    exact ⟨q, List.mem_append_left _ hq, hrest⟩
  · rintro ⟨q, hq, hrole, htenant⟩
    rcases List.mem_append.1 hq with hq | hq
    · exact ⟨q, hq, hrole, htenant⟩
    · rw [List.mem_singleton.1 hq] at hrole htenant
      rw [← hrole, ← htenant]
      exact (h.asked request.role request.tenantId).1 hthere

theorem membershipsOf_setMembership {m : Membership} {u : String}
    (hm : (s.users.get? m.userId).isSome = true) (hu : m.userId = u)
    (hnew : s.memberships.get? m.id = none) :
    (s.setMembership m hm).membershipsOf [u] = s.membershipsOf [u] ++ [m] := by
  unfold Directory.membershipsOf
  change (s.memberships.set m).values.filter _ = _
  rw [KeyedMap.values_set_of_notMem (KeyedMap.notMem_keys hnew), List.filter_append,
    List.filter_singleton]
  simp [hu]

section Calls

variable {user : User} {requests done : List MembershipRequest}

/-- What a grant does: it adds the role to those that the user holds. -/
theorem always_grant {s₀ : Directory} (hadds : Adds user s₀ s) (id : String)
    (request : MembershipRequest) (hdone : HoldsExactly (s.membershipsOf [user.id]) done)
    (hinvites : s.invites = s₀.invites) : Async.always (Directory.steady o)
      (UserStore.addMembership id user.id request.role request.tenantId)
      (fun s' r => Adds user s₀ s' ∧ s'.invites = s₀.invites ∧
        ∀ m, r = .ok m → HoldsExactly (s'.membershipsOf [user.id]) (done ++ [request])) s := by
  unfold UserStore.addMembership
  split_ifs
  · exact ⟨hadds, hinvites, nofun⟩
  · exact ⟨hadds, hinvites, nofun⟩
  · refine always_call (fun s' answer hexec => ?_) ⟨hadds, hinvites, nofun⟩
    have heq : s.addMembership id user.id request.role request.tenantId = (s', answer) :=
        Option.some.inj hexec
    have hadds' : Adds user s₀ (s.addMembership id user.id request.role request.tenantId).1 :=
        hadds.addMembership
    have hinv : (s.addMembership id user.id request.role request.tenantId).1.invites = s₀.invites :=
      (invites_addMembership s id user.id request.role request.tenantId).trans hinvites
    have hcases := addMembership_cases s id user.id request.role request.tenantId
    rw [heq] at hadds' hinv hcases
    refine ⟨⟨hadds', hinv, fun m hok => ?_⟩, hadds', hinv, nofun⟩
    rcases hcases with ⟨hsame, hfound⟩ | ⟨m', hthere, hu, hrole, htenant, hnew, hset, hnone⟩
    · dsimp only at hsame hfound
      rw [hsame]
      obtain ⟨m', hm', hu, hrest⟩ := hfound m hok
      exact hdone.again ⟨m', List.mem_filter.2 ⟨hm', by simp [hu]⟩, hrest⟩
    · dsimp only at hset
      rw [hset, membershipsOf_setMembership hthere hu hnew]
      refine hdone.add hrole htenant fun x hx => ?_
      obtain ⟨hx, hxu⟩ := List.mem_filter.1 hx
      exact hnone x hx (by simpa using hxu)

theorem always_grantAll {s₀ : Directory} (hadds : Adds user s₀ s) (n : Nat)
    (hdone : HoldsExactly (s.membershipsOf [user.id]) done) (hinvites : s.invites = s₀.invites) :
    Async.always (Directory.steady o) (grantAll ids user.id n requests)
      (fun s' r => Adds user s₀ s' ∧ s'.invites = s₀.invites ∧
        ∀ u, r = .ok u → HoldsExactly (s'.membershipsOf [user.id]) (done ++ requests)) s := by
  induction requests generalizing s n done with
  | nil =>
    rw [List.append_nil]
    exact ⟨hadds, hinvites, fun _ _ => hdone⟩
  | cons request rest ih =>
    unfold grantAll
    rw [Async.always_bind]
    refine Async.always_mono (always_grant hadds (ids n) request hdone hinvites) ?_
    rintro s₁ (e | m) ⟨hadds₁, hinvites₁, hholds⟩
    · exact ⟨hadds₁, hinvites₁, fun u heq => by cases heq⟩
    · have hrest := ih hadds₁ (n + 1) (hholds m rfl) hinvites₁
      rwa [List.append_assoc, List.singleton_append] at hrest

/-- What the person has been given. -/
structure Equipped (o : PeopleOptions) (user : User) (requests : List MembershipRequest)
    (s : Directory) (invited : Invited) : Prop where
  person : invited.user.user = user
  memberships : invited.user.memberships = s.membershipsOf [user.id]
  roles : HoldsExactly invited.user.memberships requests
  invite : ∃ i, (s.invites.values.filter fun i => i.userId = user.id) = [i] ∧
    i.usable s.now = true ∧
    i.tokenHash = o.hash invited.invite.token

theorem memberships_createInvite (s : Directory) (id u token : String) (issuer : Identity) :
    (s.createInvite o id u token issuer).1.memberships = s.memberships := by
  unfold Directory.createInvite
  dsimp only
  split_ifs <;> rfl

theorem always_equip {s₀ : Directory} (hadds : Adds user s₀ s)
    (hnone : s.membershipsOf [user.id] = []) (hinvites : s.invites = s₀.invites)
    (hunused : ∀ i ∈ s₀.invites.values, i.userId ≠ user.id)
    (httl : 0 < o.inviteTtlMs) (scope : Scope) :
    Async.always (Directory.steady o) (equip ids scope user.id requests)
      (fun s' r => Adds user s₀ s' ∧ ∀ invited, r = .ok invited →
      Equipped o user requests s' invited) s := by
  have hstart : HoldsExactly (s.membershipsOf [user.id]) [] := by
    rw [hnone]
    exact ⟨by simp, nofun⟩
  unfold equip
  rw [Async.always_bind]
  refine Async.always_mono (always_grantAll hadds 3 hstart hinvites) ?_
  rintro s₁ (e | u) ⟨hadds₁, hinvites₁, hholds⟩
  · exact ⟨hadds₁, nofun⟩
  · have hholds₁ := hholds u rfl
    rw [List.nil_append] at hholds₁
    dsimp only
    rw [Async.always_bind]
    have hinvite : Async.always (Directory.steady o)
        (await (.createInvite (ids 1) user.id (ids 2) scope.actor))
        (fun s' r => Adds user s₀ s' ∧ s'.memberships = s₁.memberships ∧ ∀ invite : NewInvite,
          r = .ok invite →
          ∃ i, (s'.invites.values.filter fun i => i.userId = user.id) = [i] ∧
            i.usable s'.now = true ∧
            i.tokenHash = o.hash invite.token) s₁ := by
      refine always_call (fun s' answer hexec => ?_) ⟨hadds₁, rfl, nofun⟩
      have heq : s₁.createInvite o (ids 1) user.id (ids 2) scope.actor = (s', answer) :=
          Option.some.inj hexec
      have hadds₂ : Adds user s₀ (s₁.createInvite o (ids 1) user.id (ids 2) scope.actor).1 :=
          hadds₁.createInvite
      have hsame := memberships_createInvite (o := o) s₁ (ids 1) user.id (ids 2) scope.actor
      rw [heq] at hadds₂ hsame
      refine ⟨⟨hadds₂, hsame, fun invite hok => ?_⟩, hadds₂, hsame, nofun⟩
      have honly := invites_createInvite s₁ (ids 1) user.id (ids 2) scope.actor
          (hinvites₁ ▸ hunused) httl
        (show (s₁.createInvite o (ids 1) user.id (ids 2) scope.actor).2 =
          .ok invite by rw [heq]; exact hok)
      rw [heq] at honly
      exact honly
    refine Async.always_mono hinvite ?_
    rintro s₂ (e | invite) ⟨hadds₂, hsame, honly⟩
    · exact ⟨hadds₂, nofun⟩
    · dsimp only
      rw [Async.always_bind]
      have hreads := Process.always_of_subset
          (reads_getWithMemberships (o := o) (s := s₂) user.id) steady_subset
      refine Async.always_mono hreads ?_
      rintro s₃ (e | _ | found) ⟨hs₃, hfound⟩ <;> obtain rfl := hs₃.symm
      · exact ⟨hadds₂, nofun⟩
      · exact ⟨hadds₂, nofun⟩
      · refine ⟨hadds₂, fun invited hok => ?_⟩
        cases hok
        obtain ⟨hrow, hmemberships⟩ := hfound found rfl
        have hof : s₂.membershipsOf [user.id] = s₁.membershipsOf [user.id] := by
          unfold Directory.membershipsOf
          rw [hsame]
        rw [hadds₂.get?] at hrow
        exact ⟨(Option.some.inj hrow).symm, hmemberships, by rw [hmemberships, hof]; exact hholds₁,
          honly invite rfl⟩

/-- A person is there, or nothing has happened. -/
def Begun (o : PeopleOptions) (id email name : String) (s s' : Directory)
    (r : Except StoreError (Outcome User)) : Prop :=
  (∃ user, r = .ok (.ok user) ∧ user.id = id ∧ s.users.get? id = none ∧
    o.normalizeEmail email = some user.email ∧
    user.name = o.trim name ∧ s' = s.setUser user) ∨ (s' = s ∧ ∀ user, r ≠ .ok (.ok user))

theorem always_fails {α : Type} {e : StoreError} {R : Directory → Prop} (h : R s) :
    Async.always (Directory.steady o) (fromStoreError e : Task (Outcome α))
      (fun s' r => R s' ∧ ∀ a, r ≠ .ok (.ok a)) s :=
  Process.always_of_subset (always_fromStoreError h) steady_subset

theorem always_begun (id email name : String) :
    Async.always (Directory.steady o)
      (tryCatch (.ok <$> UserStore.createUser o id email name) fromStoreError : Task (Outcome User))
      (fun s' r => Begun o id email name s s' r) s := by
  have hfails : ∀ e, Async.always (Directory.steady o) (fromStoreError e : Task (Outcome User))
      (fun s' r => Begun o id email name s s' r) s := fun e =>
    Async.always_mono (always_fails (R := fun s' => s' = s) rfl) fun _ _ h => .inr h
  rw [Async.always_tryCatch, Async.always_map]
  unfold UserStore.createUser
  split
  · exact hfails _
  · rename_i email' hemail
    dsimp only
    split_ifs
    · exact hfails _
    · exact hfails _
    · intro s' answer hmem
      rcases List.mem_cons.1 hmem with hmem | hmem
      · unfold Directory.createUser at hmem
        dsimp only at hmem
        split_ifs at hmem with htaken
        · cases hmem
          exact hfails _
        · cases hmem
          have hnew : s.users.get? id = none := by
            by_contra hsome
            exact htaken (.inl (Option.isSome_iff_ne_none.2 hsome))
          exact .inl ⟨_, rfl, rfl, hnew, hemail, rfl, rfl⟩
      · cases List.mem_singleton.1 hmem
        exact hfails _

/-- The clean-up leaves the tables as they were, and there is no person in the result. -/
theorem always_cleaned {s₀ : Directory} {e : StoreError} (hadds : Adds user s₀ s)
    (hnew : s₀.users.get? user.id = none) : Async.always (Directory.steady o)
      (do
        let _ ← tryCatch (await (.deleteUser user.id)) fun _ => return false
        fromStoreError e : Task (Outcome Invited))
      (fun s' r => (s'.users = s₀.users ∧ s'.memberships = s₀.memberships ∧
        s'.invites = s₀.invites) ∧
        ∀ a, r ≠ .ok (.ok a)) s := by
  rw [Async.always_bind, Async.always_tryCatch]
  intro s' answer hmem
  have hdeleted : s' = (s.deleteUser user.id).1 := by
    rcases List.mem_cons.1 hmem with hmem | hmem
    · exact congrArg Prod.fst hmem
    · exact congrArg Prod.fst (List.mem_singleton.1 hmem)
  have hsame := hadds.deleted hnew
  rw [← hdeleted] at hsame
  cases answer <;> exact always_fails hsame

end Calls

theorem Records.eq_of {r r' : Records} (hdirectory : r'.directory = r.directory)
    (haudit : r'.audit = r.audit) : r' = r := by
  cases r
  cases r'
  cases hdirectory
  cases haudit
  rfl

/-- `create` alone, when no call fails that has taken effect on its own. -/
theorem always_allOrNothing (r : Records) (hreferenced : r.directory.Referenced)
    (httl : 0 < o.inviteTtlMs) :
    Async.always (Records.steady o) (Audited.create o ids actor request)
      (fun r' result => AllOrNothing o (ids 0) actor request r r' result) r := by
  have hnothing : ∀ r' result, Unchanged r r' → (∀ invited, result ≠ .ok (.ok invited)) →
      AllOrNothing o (ids 0) actor request r r' result := fun r' result hsame hfails =>
    ⟨fun invited hok => absurd hok (hfails invited), fun _ => hsame⟩
  have hrefl : Unchanged r r := ⟨rfl, rfl, rfl, rfl⟩
  unfold Audited.create
  split
  · exact hnothing _ _ hrefl (by simp)
  · rename_i scope hscope
    split
    · exact hnothing _ _ hrefl (by simp)
    · rw [Async.always_bind]
      have hvalidate := Process.always_of_subset
          (reads_validateAll (o := o) (s := r.directory) request.memberships)
        steady_subset
      refine Async.always_mono (always_onPeople hvalidate) ?_
      rintro r₁ (e | _ | invalid) ⟨⟨hdirectory, -⟩, haudit⟩
      · exact hnothing _ _ (Records.eq_of hdirectory haudit ▸ hrefl) nofun
      · obtain rfl := Records.eq_of hdirectory haudit
        dsimp only
        rw [Async.always_bind]
        refine Async.always_mono (always_onPeople (always_begun (ids 0) request.email request.name))
          ?_
        rintro r₂ (e | failure | user) ⟨hbegun, haudit₂⟩
        · have hsame := hbegun.resolve_left (by rintro ⟨user, hok, -⟩; cases hok)
          exact hnothing _ _ (Records.eq_of hsame.1 haudit₂ ▸ hrefl) nofun
        · have hsame := hbegun.resolve_left (by rintro ⟨user, hok, -⟩; cases hok)
          exact hnothing _ _ (Records.eq_of hsame.1 haudit₂ ▸ hrefl) (by simp)
        · obtain ⟨user', hok, hid, hnew, hemail, hname, hset⟩ := hbegun.resolve_right fun h =>
            h.2 user rfl
          cases hok
          rw [← hid] at hnew
          have hadds : Adds user r₁.directory r₂.directory := hset ▸ Adds.start hnew hreferenced
          have hunused : ∀ i ∈ r₁.directory.invites.values, i.userId ≠ user.id := fun i hi heq => by
            have hthere := hreferenced i hi
            rw [heq, hnew] at hthere
            cases hthere
          have hnone : r₂.directory.membershipsOf [user.id] = [] := by
            rw [hset]
            refine List.filter_eq_nil_iff.2 fun m hm => ?_
            have hthere := r₁.directory.owned m hm
            simp only [List.mem_singleton, decide_eq_true_eq]
            rintro heq
            rw [heq, hnew] at hthere
            cases hthere
          have hinvites : r₂.directory.invites = r₁.directory.invites := by rw [hset]; rfl
          have hcleaned : ∀ (e : StoreError) (r₃ : Records), Adds user r₁.directory r₃.directory →
              r₃.audit = r₁.audit → Async.always (Records.steady o) (Audited.onPeople do
                let _ ← tryCatch (await (.deleteUser user.id)) fun _ => return false
                fromStoreError e : Audited.Task (Outcome Invited))
              (fun r' result => AllOrNothing o (ids 0) actor request r₁ r' result) r₃ :=
                fun e r₃ hadds₃ haudit₃ =>
            Async.always_mono (always_onPeople (always_cleaned hadds₃ hnew))
              fun r' result ⟨⟨hsame, hfails⟩, haudit'⟩ =>
              hnothing r' result ⟨hsame.1, hsame.2.1, hsame.2.2, haudit'.trans haudit₃⟩ hfails
          change Async.always _ (tryCatch _ _) _ r₂
          rw [Async.always_tryCatch, Async.always_bind]
          refine Async.always_mono (always_onPeople
            (always_equip hadds hnone hinvites hunused httl scope)) ?_
          rintro r₃ (e | invited) ⟨⟨hadds₃, hequipped⟩, haudit₃⟩
          · exact hcleaned e r₃ hadds₃ (haudit₃.trans haudit₂)
          · have h := hequipped invited rfl
            dsimp only
            rw [Async.always_bind]
            intro r₄ answer hmem
            rcases List.mem_cons.1 hmem with hmem | hmem
            · cases hmem
              refine ⟨fun invited' hok => ?_, fun hfails => absurd rfl (hfails invited)⟩
              cases hok
              have hperson := h.person
              exact
                { id := by rw [hperson, hid]
                  new := hid ▸ hnew
                  users := by rw [hperson]; exact hadds₃.users
                  email := by rw [hperson, hemail]
                  name := by rw [hperson, hname]
                  memberships := by rw [← hid]; exact h.memberships
                  roles := h.roles
                  invite := by rw [← hid]; exact h.invite
                  others := by rw [← hid]; exact ⟨hadds₃.memberships, hadds₃.invites⟩
                  audit := by
                    change r₃.audit ++ _ = _
                    rw [haudit₃, haudit₂] }
            · cases List.mem_singleton.1 hmem
              exact hcleaned .other r₃ hadds₃ (haudit₃.trans haudit₂)
      · exact hnothing _ _ (Records.eq_of hdirectory haudit ▸ hrefl) (by simp)

end Alone

/-! ## Among others -/

/-- Once the person has been seen with a role, no call of `create` is in trouble; and when one has
been, no one looks as long as the person holds a role. -/
def Apart (o : PeopleOptions) (userId : String) (c : Creation) : CreationStep → Prop
  | .own k =>
    match c.process with
    | .done _ => True
    | .call op _ => c.seen = true → ∀ x ∈ (c.records.outcomes o op)[k]?, op.troubles x.2 = false
  | .other _ _ => c.troubled = true → c.records.directory.holdsRole userId = false
  | .wait _ => True

/-- No one has seen a person with a role whose creation has failed. -/
def Creation.Unseen (c : Creation) : Prop :=
  ∀ result, c.process = .done result → (∀ invited, result ≠ .ok (.ok invited)) → c.seen = false

/-- `create` is called. -/
def Creation.start (o : PeopleOptions) (ids : Nat → String) (actor : Principal)
    (request : CreateUserRequest) (records : Records) : Creation where
  records
  process := (Audited.create o ids actor request).run

section Among

variable {userId : String} {s s' : Directory}

def Good (op : RecordOp) (answer : Except StoreError op.Answer) : Prop := op.troubles answer = false

def Begins (userId : String) (op : RecordOp) (answer : Except StoreError op.Answer) : Prop :=
  op.draws userId = true ∧ Good op answer

/-- The request is one that the store does not refuse by itself. -/
def MembershipRequest.Valid (request : MembershipRequest) : Prop :=
  request.role = .operator ∧ request.tenantId = none ∨ request.role = .tenantManager ∧
    request.tenantId.isSome = true

theorem ok_of_isOk {α : Type} {answer : Except StoreError α} (h : (!answer.isOk) = false) :
    ∃ a, answer = .ok a := by
  cases answer with
  | ok a => exact ⟨a, rfl⟩
  | error e => cases h

/-! ### What `create` does when it is answered well -/

theorem valid_of_validated (requests : List MembershipRequest) :
    (validateAll requests).run.onlyReturns fun r =>
    r = .ok none → ∀ request ∈ requests, request.Valid := by
  induction requests with
  | nil => exact fun _ q hq => absurd hq List.not_mem_nil
  | cons request rest ih =>
    have hrest : (validateAll rest).run.onlyReturns fun r =>
        r = .ok none → request.Valid → ∀ q ∈ request :: rest, q.Valid := by
      refine Process.onlyReturns_mono ih fun r h hr hvalid q hq => ?_
      rcases List.mem_cons.1 hq with rfl | hq
      · exact hvalid
      · exact h hr q hq
    obtain ⟨role, tenantId⟩ := request
    unfold validateAll UserAdmin.validateMembership
    cases role with
    | systemAdmin => exact fun heq => by cases heq
    | operator =>
      cases tenantId with
      | some tenantId => exact fun heq => by cases heq
      | none => exact Process.onlyReturns_mono hrest fun r h hr => h hr (.inl ⟨rfl, rfl⟩)
    | tenantManager =>
      cases tenantId with
      | none => exact fun heq => by cases heq
      | some tenantId =>
        intro answer
        cases answer with
        | error e => exact fun heq => by cases heq
        | ok there =>
          cases there with
          | false => exact fun heq => by cases heq
          | true => exact Process.onlyReturns_mono hrest fun r h hr => h hr (.inr ⟨rfl, rfl⟩)

theorem returns_grantAll {requests : List MembershipRequest}
    (hvalid : ∀ request ∈ requests, request.Valid) (n : Nat) :
    (grantAll ids userId n requests).run.onlyReturnsIf (fun op => Good (.people op)) fun r =>
    r = .ok () := by
  induction requests generalizing n with
  | nil => exact rfl
  | cons request rest ih =>
    have hgrant :
        (UserStore.addMembership (ids n) userId request.role request.tenantId).run.onlyReturnsIf
        (fun op => Good (.people op)) fun r => ∃ m, r = .ok m := by
      unfold UserStore.addMembership
      rcases hvalid request List.mem_cons_self with ⟨hrole, htenant⟩ | ⟨hrole, htenant⟩
      · rw [if_neg (by simp [htenant]), if_neg (by simp [hrole])]
        exact fun answer hgood => ok_of_isOk hgood
      · rw [if_neg (by simp [hrole]), if_neg (by simp [Option.isSome_iff_ne_none.1 htenant])]
        exact fun answer hgood => ok_of_isOk hgood
    unfold grantAll
    rw [ExceptT.run_bind]
    refine Process.onlyReturnsIf_bind hgrant ?_
    rintro _ ⟨m, rfl⟩
    exact ih (fun q hq => hvalid q (List.mem_cons_of_mem _ hq)) (n + 1)

theorem returns_equip {requests : List MembershipRequest}
    (hvalid : ∀ request ∈ requests, request.Valid) (scope : Scope) :
    (equip ids scope userId requests).run.onlyReturnsIf (fun op => Good (.people op)) fun r =>
    ∃ invited, r = .ok invited := by
  unfold equip
  rw [ExceptT.run_bind]
  refine Process.onlyReturnsIf_bind (returns_grantAll hvalid 3) ?_
  rintro _ rfl
  dsimp only
  rw [ExceptT.run_bind]
  intro answer hgood
  obtain ⟨invite, rfl⟩ := ok_of_isOk hgood
  intro answer hgood
  cases answer with
  | error e => cases hgood
  | ok found =>
    cases found with
    | none => cases hgood
    | some user =>
      intro answer hgood
      obtain ⟨memberships, rfl⟩ := ok_of_isOk hgood
      exact ⟨_, rfl⟩

theorem calls_validateAll (requests : List MembershipRequest) :
    (validateAll requests).onlyCalls fun op => (RecordOp.people op).draws userId = false := by
  induction requests with
  | nil => exact trivial
  | cons request rest ih =>
    obtain ⟨role, tenantId⟩ := request
    refine Async.onlyCalls_bind ?_ fun denied => ?_
    · unfold UserAdmin.validateMembership
      cases role with
      | systemAdmin => exact trivial
      | operator => cases tenantId <;> exact trivial
      | tenantManager =>
        cases tenantId with
        | none => exact trivial
        | some tenantId =>
          refine Async.onlyCalls_bind (Async.onlyCalls_await rfl) fun there => ?_
          cases there <;> exact trivial
    · cases denied with
      | some failure => exact trivial
      | none => exact ih

theorem calls_fromStoreError {α : Type} (e : StoreError) :
    (fromStoreError e : Task (Outcome α)).onlyCalls fun op =>
    (RecordOp.people op).draws userId = false := by
  cases e <;> exact trivial

theorem calls_grantAll (u : String) (n : Nat) (requests : List MembershipRequest) :
    (grantAll ids u n requests).onlyCalls fun op => (RecordOp.people op).draws userId = false := by
  induction requests generalizing n with
  | nil => exact trivial
  | cons request rest ih =>
    refine Async.onlyCalls_bind ?_ fun _ => ih (n + 1)
    unfold UserStore.addMembership
    split_ifs
    · exact trivial
    · exact trivial
    · exact Async.onlyCalls_await rfl

theorem calls_equip (u : String) (scope : Scope) (requests : List MembershipRequest) :
    (equip ids scope u requests).onlyCalls fun op => (RecordOp.people op).draws userId = false := by
  refine Async.onlyCalls_bind (calls_grantAll u 3 requests) fun _ =>
    Async.onlyCalls_bind (Async.onlyCalls_await rfl)
    fun invite => Async.onlyCalls_bind ?_ fun found => ?_
  · refine Async.onlyCalls_bind (Async.onlyCalls_await rfl) fun user => ?_
    cases user with
    | none => exact trivial
    | some user => exact Async.onlyCalls_bind (Async.onlyCalls_await rfl) fun _ => trivial
  · cases found <;> exact trivial

/-- The call that draws the random number is the one that creates the person. -/
theorem begins_createUser (id email name : String) :
    (tryCatch (.ok <$> UserStore.createUser o id email name) fromStoreError : Task
    (Outcome User)).run.onlyReturnsOnce
      (fun op => Good (.people op)) (fun op => Begins userId (.people op)) fun r =>
      ∃ user, r = .ok (.ok user) := by
  have hfails : ∀ e, (fromStoreError e : Task (Outcome User)).run.onlyReturnsOnce
      (fun op => Good (.people op))
      (fun op => Begins userId (.people op)) fun r => ∃ user, r = .ok (.ok user) := fun e => by
    cases e <;> exact trivial
  unfold UserStore.createUser
  split
  · exact trivial
  · dsimp only
    split_ifs
    · exact trivial
    · exact trivial
    · intro answer
      cases answer with
      | error e =>
          exact ⟨fun hbegins => absurd hbegins.2
            (by simp [Good, RecordOp.troubles, Except.isOk, Except.toBool]), hfails e⟩
      | ok user => exact ⟨fun _ => ⟨user, rfl⟩, trivial⟩

theorem notBegins {op : RecordOp} (h : op.draws userId = false)
    (answer : Except StoreError op.Answer) : ¬ Begins userId op answer := fun hbegins => by
  rw [hbegins.1] at h
  cases h

/-- Once the person is there, `create` returns them unless a call is in trouble. -/
theorem create_returns (ids : Nat → String) (actor : Principal) (request : CreateUserRequest) :
    (Audited.create o ids actor request).run.onlyReturnsOnce Good (Begins userId)
      fun result => ∃ invited, result = .ok (.ok invited) := by
  unfold Audited.create
  split
  · exact trivial
  · rename_i scope hscope
    split
    · exact trivial
    · rw [ExceptT.run_bind]
      refine Process.onlyReturnsOnce_bind (R := fun _ => False)
        (Process.onlyReturnsOnce_of_onlyCalls
        (Process.onlyCalls_lift (calls_validateAll request.memberships) fun op h => notBegins h))
        (Process.onlyReturns_lift (valid_of_validated request.memberships)) (fun _ h => h.elim) ?_
      rintro (e | _ | invalid) hvalid
      · exact trivial
      · dsimp only
        rw [ExceptT.run_bind]
        have hvalid := hvalid rfl
        refine Process.onlyReturnsOnce_bind (P := fun _ => True) (Process.onlyReturnsOnce_lift
          (begins_createUser (ids 0) request.email request.name)
            (fun op answer h => h) fun op answer h => h)
          ?_ ?_ ?_
        · exact Process.onlyReturns_of_forall _ fun _ => trivial
        · rintro _ ⟨user, rfl⟩
          refine Process.onlyReturnsIf_bind (R := fun r => ∃ invited, r = .ok (.ok invited)) ?_ ?_
          · change Process.onlyReturnsIf _ _ (ExceptT.run (_ >>= _))
            rw [ExceptT.run_bind]
            refine Process.onlyReturnsIf_bind
              (Process.onlyReturnsIf_lift (returns_equip hvalid scope)
              fun op answer h => h) ?_
            rintro _ ⟨invited, rfl⟩ answer hgood
            obtain ⟨written, rfl⟩ := ok_of_isOk hgood
            exact ⟨invited, rfl⟩
          · rintro _ ⟨invited, rfl⟩
            exact ⟨invited, rfl⟩
        · rintro (e | failure | user) -
          · exact trivial
          · exact trivial
          · refine Process.onlyReturnsOnce_of_onlyCalls ?_
            refine Async.onlyCalls_tryCatch ?_ fun e => ?_
            · refine Async.onlyCalls_bind
                (Process.onlyCalls_lift (calls_equip user.id scope request.memberships)
                fun op h => notBegins h) fun invited => ?_
              exact Async.onlyCalls_bind (Async.onlyCalls_await (notBegins rfl)) fun _ => trivial
            · have hcleans : (do
                  let _ ← tryCatch (await (.deleteUser user.id)) fun _ => return false
                  fromStoreError e : Task (Outcome Invited)).onlyCalls
                    fun op => (RecordOp.people op).draws userId = false :=
                Async.onlyCalls_bind (Async.onlyCalls_tryCatch (Async.onlyCalls_await rfl) fun _ =>
                  trivial) fun _ =>
                  calls_fromStoreError e
              exact Process.onlyCalls_lift hcleans fun op h => notBegins h
      · exact trivial

/-! ### What the others may do -/

/-- A row that is written anew is not a new one. -/
theorem isSome_of_row {k : String} {x y : User} (husers : s'.users = s.users.set y)
    (hget : s.users.get? k = some x) (hid : y.id = x.id)
    (h : (s'.users.get? userId).isSome = true) : (s.users.get? userId).isSome = true := by
  rw [husers, KeyedMap.get?_set] at h
  split_ifs at h with hu
  · rw [← hu, hid, KeyedMap.key_of_get? hget, hget]
    rfl
  · exact h

/-- Only the one who draws the random number makes a row under it. -/
theorem isSome_of_exec {op : PeopleOp} {answer : Except StoreError op.Answer}
    (hexec : s.exec o op = some (s', answer)) (hdraws : (RecordOp.people op).draws userId = false)
    (h : (s'.users.get? userId).isSome = true) : (s.users.get? userId).isSome = true := by
  cases op with
  | createUser id email name passwordHash =>
    obtain rfl : (s.createUser id email name passwordHash).1 = s' :=
      congrArg Prod.fst (Option.some.inj hexec)
    unfold Directory.createUser at h
    dsimp only at h
    split_ifs at h
    · exact h
    · change ((s.users.set _).get? userId).isSome = true at h
      rw [KeyedMap.get?_set_of_ne] at h
      · exact h
      · simpa [RecordOp.draws] using hdraws
  | addMembership id u role tenantId =>
    obtain rfl : (s.addMembership id u role tenantId).1 = s' :=
      congrArg Prod.fst (Option.some.inj hexec)
    rcases addMembership_cases s id u role tenantId with ⟨hsame, -⟩ | ⟨m, hm, -, -, -, -, hset, -⟩
    · rwa [hsame] at h
    · rw [hset] at h
      exact h
  | activate u =>
    cases hexec
    unfold Directory.activate at h
    split at h
    · exact h
    · rename_i x hget
      exact isSome_of_row rfl hget (by rfl) h
  | lockToDisable u =>
    simp only [Directory.exec] at hexec
    split_ifs at hexec <;> cases hexec <;> exact h
  | disable u =>
    simp only [Directory.exec] at hexec
    split_ifs at hexec
    cases hexec
    unfold Directory.disable at h
    split at h
    · exact h
    · rename_i x hget
      exact isSome_of_row rfl hget (by rfl) h
  | lockToRemove u id =>
    simp only [Directory.exec] at hexec
    split_ifs at hexec
    split at hexec
    · cases hexec
      exact h
    · split_ifs at hexec <;> cases hexec <;> exact h
  | remove u id =>
    simp only [Directory.exec] at hexec
    split_ifs at hexec
    cases hexec
    unfold Directory.remove at h
    split at h
    · exact h
    · split_ifs at h <;> exact h
  | deleteUser u =>
    cases hexec
    unfold Directory.deleteUser at h
    split_ifs at h
    · change ((s.users.erase u).get? userId).isSome = true at h
      by_cases hu : u = userId
      · rw [hu, KeyedMap.get?_erase_self] at h
        cases h
      · rwa [KeyedMap.get?_erase_of_ne _ hu] at h
    · exact h
  | setPassword u passwordHash =>
    cases hexec
    unfold Directory.setPassword at h
    split at h
    · exact h
    · rename_i x hget
      exact isSome_of_row rfl hget (by rfl) h
  | recordLogin u =>
    cases hexec
    unfold Directory.recordLogin at h
    split at h
    · exact h
    · rename_i x hget
      exact isSome_of_row rfl hget (by rfl) h
  | accept token passwordHash =>
    cases hexec
    unfold Directory.accept at h
    split at h
    · exact h
    · rename_i i x hfind
      exact isSome_of_row rfl (findInvite_some hfind).2.2.2.2 (by rfl) h
  | createInvite id u token issuer =>
    obtain rfl : (s.createInvite o id u token issuer).1 = s' :=
      congrArg Prod.fst (Option.some.inj hexec)
    unfold Directory.createInvite at h
    dsimp only at h
    split_ifs at h <;> exact h
  | createSession token u revocations =>
    obtain rfl : (s.createSession o token u revocations).1 = s' :=
      congrArg Prod.fst (Option.some.inj hexec)
    unfold Directory.createSession at h
    dsimp only at h
    split_ifs at h <;> exact h
  | touch token =>
    cases hexec
    unfold Directory.touch at h
    split at h <;> exact h
  | destroySession token =>
    cases hexec
    unfold Directory.destroySession at h
    split_ifs at h <;> exact h
  | findById _ | findByEmail _ | findCredentials _ | tenantExists _ | listUsers _ | membershipsOf _
  | isWithinTenants _ _ | inspect _ | resolve _ =>
    cases hexec
    exact h

theorem isSome_of_outcomes {r r' : Records} {op : RecordOp} {answer : Except StoreError op.Answer}
    (hmem : (r', answer) ∈ r.outcomes o op) (hdraws : op.draws userId = false)
    (h : (r'.directory.users.get? userId).isSome = true) :
    (r.directory.users.get? userId).isSome = true := by
  cases op with
  | recordStrict entry =>
    have hsame : r'.directory = r.directory := by
      simp only [Records.outcomes, List.mem_cons, Prod.mk.injEq, List.not_mem_nil, or_false] at hmem
      rcases hmem with ⟨rfl, -⟩ | ⟨rfl, -⟩ | ⟨rfl, -⟩ <;> rfl
    rwa [hsame] at h
  | people op =>
    obtain ⟨⟨directory, a⟩, hmem, heq⟩ := List.mem_map.1 hmem
    cases heq
    rcases outcomes_cases hmem with hexec | ⟨-, rfl | ⟨a', hexec⟩⟩
    · exact isSome_of_exec hexec hdraws h
    · have hsame : (r.directory.rollback op).users = r.directory.users := by
        unfold Directory.rollback
        split
        · split_ifs <;> rfl
        · split_ifs <;> rfl
        · rfl
      change ((r.directory.rollback op).users.get? userId).isSome = true at h
      rwa [hsame] at h
    · exact isSome_of_exec hexec hdraws h

theorem isSome_of_holdsRole (h : s.holdsRole userId = true) :
    (s.users.get? userId).isSome = true := by
  obtain ⟨m, hm, hu⟩ := List.any_eq_true.1 h
  rw [← of_decide_eq_true hu]
  exact s.owned m hm

/-! ### Runs -/

def Returned (result : Except StoreError (Outcome Invited)) : Prop :=
  ∃ invited, result = .ok (.ok invited)

structure Creation.Kept (userId : String) (c : Creation) : Prop where
  once : c.process.onlyReturnsOnce Good (Begins userId) Returned
  returns : ((c.records.directory.users.get? userId).isSome = true ∨ c.seen = true) →
    c.troubled = false →
    c.process.onlyReturnsIf Good Returned
  apart : c.seen = true → c.troubled = false

variable {c c' : Creation}

theorem Creation.Kept.step (h : c.Kept userId) {next : CreationStep}
    (hapart : Apart o userId c next) (hstep : c.step o userId next = some c') : c'.Kept userId := by
  cases next with
  | wait ms =>
    cases hstep
    exact ⟨h.once, h.returns, h.apart⟩
  | other op k =>
    simp only [Creation.step] at hstep
    split_ifs at hstep with hdraws
    obtain ⟨⟨records, answer⟩, hk, rfl⟩ := Option.map_eq_some_iff.1 hstep
    have hrow := isSome_of_outcomes (List.mem_of_getElem? hk) (Bool.eq_false_iff.2 hdraws)
    refine ⟨h.once, fun hthere htroubled => ?_, fun hseen => ?_⟩
    · refine h.returns ?_ htroubled
      rcases hthere with hthere | hseen
      · exact .inl (hrow hthere)
      · rcases Bool.or_eq_true_iff.1 hseen with hseen | hholds
        · exact .inr hseen
        · exact .inl (isSome_of_holdsRole hholds)
    · change c.troubled = false
      rcases Bool.or_eq_true_iff.1 hseen with hseen | hholds
      · exact h.apart hseen
      · by_contra htroubled
        rw [hapart (by simpa using htroubled)] at hholds
        cases hholds
  | own k =>
    simp only [Creation.step] at hstep
    split at hstep
    · cases hstep
    · rename_i op next hprocess
      obtain ⟨⟨records, answer⟩, hk, rfl⟩ := Option.map_eq_some_iff.1 hstep
      have honce := h.once
      have hreturns := h.returns
      simp only [Apart, hprocess] at hapart
      rw [hprocess] at honce hreturns
      refine ⟨(honce answer).2, fun hthere htroubled => ?_, fun hseen => ?_⟩
      · obtain ⟨htroubled, hgood⟩ := Bool.or_eq_false_iff.1 htroubled
        by_cases hbefore : (c.records.directory.users.get? userId).isSome = true ∨ c.seen = true
        · exact hreturns hbefore htroubled answer hgood
        · -- the row is new
          obtain ⟨hnone, hunseen⟩ := not_or.1 hbefore
          have hthere := hthere.resolve_right hunseen
          cases hdraws : op.draws userId with
          | true => exact (honce answer).1 ⟨hdraws, hgood⟩
          | false => exact absurd (isSome_of_outcomes (List.mem_of_getElem? hk) hdraws hthere) hnone
      · have hgood := hapart hseen (records, answer) hk
        change (c.troubled || op.troubles answer) = false
        rw [h.apart hseen, hgood]
        rfl

theorem Creation.Kept.unseen (h : c.Kept userId) : c.Unseen := by
  intro result hdone hfails
  by_contra hseen
  have hseen : c.seen = true := by simpa using hseen
  have hreturned := h.returns (.inr hseen) (h.apart hseen)
  rw [hdone] at hreturned
  obtain ⟨invited, hok⟩ := hreturned
  exact hfails invited hok

theorem Creation.kept_start {records : Records}
    (hfresh : records.directory.users.get? (ids 0) = none) :
    (Creation.start o ids actor request records).Kept (ids 0) := by
  refine ⟨create_returns ids actor request, fun hthere => ?_, nofun⟩
  have hthere : (records.directory.users.get? (ids 0)).isSome = true := hthere.resolve_right nofun
  rw [hfresh] at hthere
  cases hthere

end Among

/-! ## The claim -/

/-- All or nothing, and no one sees what comes to nothing. -/
theorem created_as_a_whole (httl : 0 < o.inviteTtlMs) {records : Records}
    (hreferenced : records.directory.Referenced)
    (hfresh : records.directory.users.get? (ids 0) = none) :
    (∀ records' result, Process.Ends (Records.steady o)
    (Audited.create o ids actor request).run records records' result →
      AllOrNothing o (ids 0) actor request records records' result) ∧
    ∀ c, Machine.Reaches (Creation.step o (ids 0)) (Apart o (ids 0))
      (.start o ids actor request records) c → c.Unseen := by
  constructor
  · exact (Process.always_iff _).1 (always_allOrNothing records hreferenced httl)
  · intro c hrun
    have hkept := hrun.keeps (I := Creation.Kept (ids 0))
        (Creation.kept_start hfresh) fun h hapart hstep =>
      h.step hapart hstep
    exact hkept.unseen

/-- Bob, who is to manage the tenant north. -/
def bob : CreateUserRequest :=
  { email := "bob@office", name := "Bob", memberships := [⟨.tenantManager, some "north"⟩] }

/-- Bob has been created. -/
def madeBob : Except StoreError (Outcome Invited) → Bool
  | .ok (.ok invited) => invited.user.user.name = "Bob"
  | _ => false

/-- Meg creates Bob. -/
theorem created_as_a_whole_office :
    ∃ (records' : Records) (invited : Invited), invited.user.user.name = "Bob" ∧
    Stored plainOptions "new user" meg bob { directory := office } records' invited := by
  have hrun : ((Audited.create plainOptions someIds meg bob).run.play (Records.steady plainOptions)
      (List.replicate 7 0)
      { directory := office }).any (fun x => madeBob x.2) = true := by
    decide +kernel
  obtain ⟨⟨records', result⟩, hplay, hresult⟩ := (Option.any_eq_true ..).1 hrun
  have hends : Process.Ends (Records.steady plainOptions)
      (Audited.create plainOptions someIds meg bob).run
      { directory := office } records' result := .of_play hplay
  have hall : AllOrNothing plainOptions "new user" meg bob
      { directory := office } records' result :=
    (created_as_a_whole (by decide) (by decide) (by decide)).1 records' result hends
  dsimp only [madeBob] at hresult
  split at hresult
  · rename_i invited
    exact ⟨records', invited, of_decide_eq_true hresult, hall.all invited rfl⟩
  · cases hresult

/-- The call has failed, and someone has seen the person. -/
def Creation.failsSeen (c : Creation) : Bool :=
  match c.process with
  | .done (.error _) => c.seen
  | _ => false

/-- Bob is listed with his role, and then the entry of the audit log cannot be written. -/
theorem not_created_as_a_whole : ¬ ∀ (o : PeopleOptions) (ids : Nat → String) (actor : Principal)
    (request : CreateUserRequest) (records : Records), 0 < o.inviteTtlMs →
    records.directory.Referenced →
      records.directory.users.get? (ids 0) = none →
        (∀ records' result,
          Process.Ends (Records.cleaned o)
            (Audited.create o ids actor request).run records records' result →
            AllOrNothing o (ids 0) actor request records records' result) ∧
        ∀ c, Machine.Reaches (Creation.step o (ids 0)) (fun _ _ => True)
          (.start o ids actor request records) c →
          c.Unseen := by
  intro h
  have hrun : (Machine.runs (Creation.step plainOptions "new user") (fun _ _ => True)
      [.own 0, .own 0, .own 0, .other (.people (.listUsers none)) 0, .own 0, .own 0, .own 0, .own 1,
        .own 0]
      (.start plainOptions someIds meg bob { directory := office })).any Creation.failsSeen =
        true := by
    decide +kernel
  obtain ⟨c, hruns, hc⟩ := (Option.any_eq_true ..).1 hrun
  have hunseen := (h plainOptions someIds meg bob { directory := office } (by decide) (by decide)
    (by decide)).2 c (.of_runs hruns)
  unfold Creation.failsSeen at hc
  split at hc
  · rename_i e hdone
    rw [hunseen _ hdone nofun] at hc
    cases hc
  · cases hc

end NexusWorkflow.People
