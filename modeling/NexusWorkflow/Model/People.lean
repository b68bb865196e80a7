import NexusWorkflow.Lib.KeyedMap
import NexusWorkflow.Lib.Processes
import NexusWorkflow.Model.Types

/-!
# People

The tables of users, memberships, invites and sessions, and the statements and transactions of
`UserStore`, `InviteStore` and `SessionStore` (`db/UserStore.ts`, `db/InviteStore.ts`,
`db/SessionStore.ts`).  An operation is atomic.  A transaction that takes the advisory lock is two
of them, since others may commit between its check and its end.
-/

namespace NexusWorkflow.People

/-! ## Rows -/

inductive UserStatus where
  | active | disabled
  deriving DecidableEq

inductive MembershipRole where
  | systemAdmin | operator | tenantManager
  deriving DecidableEq

/-- The roles that administer the platform itself. -/
def platformRoles : List MembershipRole := [.systemAdmin, .operator]

structure User where
  id : String
  email : String
  name : String
  passwordHash : Option String := none
  status : UserStatus := .active
  createdAt : Time
  lastLoginAt : Option Time := none

structure Membership where
  id : String
  userId : String
  role : MembershipRole
  tenantId : Option String
  createdAt : Time
  deriving DecidableEq

/-- Who acts. -/
inductive Identity where
  | user (id : String)
  | adminKey
  | operatorKey (keyId : String)
  | apiKey (keyId : String)
  | commandLine
  deriving DecidableEq

structure Invite where
  id : String
  userId : String
  tokenHash : String
  expiresAt : Time
  usedAt : Option Time := none
  /-- Not in the table: who has been told the token. -/
  issuer : Identity
  deriving DecidableEq

structure Session where
  tokenHash : String
  userId : String
  lastSeenAt : Time
  expiresAt : Time
  /-- Not in the table: how often access had been revoked when the credentials behind the session
  were read. -/
  revocations : Nat
  deriving DecidableEq

/-- What a transaction under the advisory lock is about to take away. -/
inductive Removal where
  | access (userId : String)
  | membership (userId membershipId : String)
  deriving DecidableEq

/-- Secrets, lifetimes and the functions on texts that the rules do not depend on. -/
structure PeopleOptions where
  /-- The HMAC of a token. -/
  hash : String → String
  hash_injective : Function.Injective hash
  inviteTtlMs : Int
  sessionIdleMs : Int
  sessionMaxMs : Int
  normalizeEmail : String → Option String
  trim : String → String
  /-- `PasswordHasher.verify`. -/
  verify : String → Option String → Bool
  /-- `PasswordHasher.hash`, which refuses a weak password. -/
  hashPassword : String → Option String

/-- The database.  A membership belongs to a user. -/
structure Directory where
  users : KeyedMap User.id := ∅
  memberships : KeyedMap Membership.id := ∅
  invites : KeyedMap Invite.id := ∅
  sessions : KeyedMap Session.tokenHash := ∅
  tenants : List String := []
  /-- The advisory lock, with what its holder is about to do. -/
  lock : Option Removal := none
  now : Time := 0
  /-- Not in the database: whose accounts were disabled or got a new password, one entry for each
  time. -/
  revoked : List String := []
  owned : ∀ m ∈ memberships.values, (users.get? m.userId).isSome := by simp

/-! ## Errors -/

/-- `UserInputError` and its subclasses; any other error is `other`. -/
inductive StoreError where
  | emailTaken
  | lastOperator
  | userInput (message : String)
  | other
  deriving DecidableEq

/-! ## Changes of the tables -/

theorem isSome_get?_set {users : KeyedMap User.id} {u : User} {k : String}
    (h : (users.get? k).isSome) : ((users.set u).get? k).isSome := by
  rw [KeyedMap.get?_set]
  split_ifs
  · rfl
  · exact h

namespace Directory

variable (s : Directory)

def setUser (u : User) : Directory :=
  { s with users := s.users.set u
           owned := fun m hm => isSome_get?_set (s.owned m hm) }

def setMembership (m : Membership) (h : (s.users.get? m.userId).isSome) : Directory :=
  { s with memberships := s.memberships.set m
           owned := fun x hx => by
             rcases KeyedMap.mem_set.1 hx with rfl | ⟨hx, -⟩
             · exact h
             · exact s.owned x hx }

def eraseMembership (id : String) : Directory :=
  { s with memberships := s.memberships.erase id
           owned := fun m hm => s.owned m (KeyedMap.mem_erase.1 hm).1 }

/-- The user and everything that hangs off them. -/
def eraseUser (id : String) : Directory :=
  { s with users := s.users.erase id
           memberships := s.memberships.keep fun m => m.userId ≠ id
           invites := s.invites.keep fun i => i.userId ≠ id
           sessions := s.sessions.keep fun x => x.userId ≠ id
           owned := fun m hm => by
             obtain ⟨hm, hne⟩ := List.mem_filter.1 hm
             rw [KeyedMap.get?_erase_of_ne _ (Ne.symm (of_decide_eq_true hne))]
             exact s.owned m hm }

/-- All sessions of the user end, since their access is revoked. -/
def endSessions (userId : String) : Directory :=
  { s with sessions := s.sessions.keep fun x => x.userId ≠ userId
           revoked := s.revoked ++ [userId] }

/-- How often the access of the user has been revoked. -/
def revocations (userId : String) : Nat := s.revoked.count userId

def unlock : Directory := { s with lock := none }

/-! ## Queries -/

def findByEmail (email : String) : Option User := s.users.values.find? fun u => u.email = email

/-- `attachMemberships`: the memberships of these users. -/
def membershipsOf (ids : List String) : List Membership :=
  s.memberships.values.filter fun m => m.userId ∈ ids

/-- `withinTenantsPredicate`: the user has a membership, and each one is a manager role in one of
the tenants. -/
def withinTenants (userId : String) (tenantIds : List String) : Bool :=
  (s.memberships.values.any fun m => m.userId = userId) &&
    s.memberships.values.all fun m =>
      m.userId ≠ userId || (m.role = .tenantManager && m.tenantId.any (· ∈ tenantIds))

def isWithinTenants (userId : String) (tenantIds : List String) : Bool :=
  tenantIds ≠ [] && (s.users.get? userId).isSome && s.withinTenants userId tenantIds

/-- `listWithMemberships`, before the memberships are attached. -/
def listUsers (within : Option (List String)) : List User :=
  match within with
  | none => s.users.values
  | some tenantIds => s.users.values.filter fun u => s.withinTenants u.id tenantIds

/-- The user holds one of the platform roles, by a membership other than this one. -/
def holdsPlatformRole (userId : String) (exceptMembershipId : Option String := none) : Bool :=
  s.memberships.values.any fun m =>
    m.userId = userId && m.role ∈ platformRoles && some m.id ≠ exceptMembershipId

def isActive (userId : String) : Bool := (s.users.get? userId).any (·.status = .active)

/-- An active operator or system admin. -/
def isActiveAdmin (userId : String) : Bool := s.holdsPlatformRole userId && s.isActive userId

def otherActiveAdmins (userId : String) : Bool :=
  s.memberships.values.any fun m =>
    m.userId ≠ userId && m.role ∈ platformRoles && s.isActive m.userId

/-- `assertNotLastAdmin` does not throw. -/
def notLastAdmin (userId : String) (exceptMembershipId : Option String := none) : Bool :=
  !(s.isActiveAdmin userId && !s.otherActiveAdmins userId &&
    !(exceptMembershipId.isSome && s.holdsPlatformRole userId exceptMembershipId))

end Directory

/-- An invite that `accept` would take. -/
def Invite.usable (i : Invite) (now : Time) : Bool := i.usedAt.isNone && now < i.expiresAt

/-- A session that `resolve` would find. -/
def Session.alive (o : PeopleOptions) (x : Session) (now : Time) : Bool :=
  now < x.expiresAt && now - o.sessionIdleMs < x.lastSeenAt

/-- Tokens are 43 characters of base64url. -/
def isToken (token : String) : Bool :=
  token.toList.length = 43 && token.toList.all fun c => c.isAlphanum || c = '_' || c = '-'

/-! ## Operations -/

structure InviteInfo where
  email : String
  name : String
  expiresAt : Time

structure NewInvite where
  token : String
  expiresAt : Time

structure ResolvedSession where
  user : User
  expiresAt : Time
  sinceSeen : Time

/-- Someone who has proved who they are, or is about to. -/
structure Credentials where
  user : User
  /-- Not in the source: how often access had been revoked by then. -/
  revocations : Nat

inductive PeopleOp where
  | findById (id : String)
  | findByEmail (email : String)
  | findCredentials (email : String)
  | tenantExists (tenantId : String)
  | listUsers (withinTenants : Option (List String))
  | membershipsOf (ids : List String)
  | isWithinTenants (userId : String) (tenantIds : List String)
  | createUser (id email name : String) (passwordHash : Option String)
  | addMembership (id userId : String) (role : MembershipRole) (tenantId : Option String)
  | activate (userId : String)
  /-- `setStatus` with `disabled`, up to the check; then the rest of it. -/
  | lockToDisable (userId : String)
  | disable (userId : String)
  /-- `removeMembership` up to the check; then the rest of it. -/
  | lockToRemove (userId membershipId : String)
  | remove (userId membershipId : String)
  | deleteUser (userId : String)
  | setPassword (userId passwordHash : String)
  | recordLogin (userId : String)
  | createInvite (id userId token : String) (issuer : Identity)
  | inspect (token : String)
  | accept (token passwordHash : String)
  | createSession (token userId : String) (revocations : Nat)
  | resolve (token : String)
  | touch (token : String)
  | destroySession (token : String)

/-- What the operation returns. -/
abbrev PeopleOp.Answer : PeopleOp → Type
  | findById _ | findByEmail _ => Option User
  | findCredentials _ | accept _ _ => Option Credentials
  | tenantExists _ | isWithinTenants _ _ | activate _ | disable _ | lockToRemove _ _ | remove _ _ |
    deleteUser _ | setPassword _ _ => Bool
  | listUsers _ => List User
  | membershipsOf _ => List Membership
  | createUser _ _ _ _ => User
  | addMembership _ _ _ _ => Membership
  | lockToDisable _ | recordLogin _ | touch _ | destroySession _ => Unit
  | createInvite _ _ _ _ => NewInvite
  | inspect _ => Option InviteInfo
  | createSession _ _ _ => NewInvite
  | resolve _ => Option ResolvedSession

/-- The operation takes the advisory lock. -/
def PeopleOp.locks : PeopleOp → Bool
  | lockToDisable _ | lockToRemove _ _ => true
  | _ => false

namespace Directory

variable (o : PeopleOptions) (s : Directory)

def createUser (id email name : String) (passwordHash : Option String) :
    Directory × Except StoreError User :=
  let user : User := { id, email, name, passwordHash, createdAt := s.now }
  if (s.users.get? id).isSome ∨ (s.findByEmail email).isSome then (s, .error .emailTaken)
  else (s.setUser user, .ok user)

/-- `ON CONFLICT DO NOTHING`, and then the membership that is there. -/
def addMembership (id userId : String) (role : MembershipRole) (tenantId : Option String) :
    Directory × Except StoreError Membership :=
  let inserted : Membership := { id, userId, role, tenantId, createdAt := s.now }
  let same : Membership → Bool := fun m =>
    m.userId = userId && m.role = role && (role ≠ .tenantManager || m.tenantId = tenantId)
  if s.memberships.values.any fun m => m.id = id || same m then
    match s.memberships.values.find? fun m =>
      m.userId = userId && m.role = role && m.tenantId = tenantId with
    | some existing => (s, .ok existing)
    | none => (s, .error .other)
  else if h : (s.users.get? userId).isSome then
    if tenantId.all (· ∈ s.tenants) then (s.setMembership inserted h, .ok inserted)
    else (s, .error (.userInput "Tenant not found"))
  else (s, .error (.userInput "User not found"))

def activate (userId : String) : Directory × Bool :=
  match s.users.get? userId with
  | none => (s, false)
  | some u => (s.setUser { u with status := .active }, true)

def disable (userId : String) : Directory × Bool :=
  match s.users.get? userId with
  | none => (s, false)
  | some u =>
      ((s.setUser { u with status := .disabled }).endSessions userId, true)

def remove (userId membershipId : String) : Directory × Bool :=
  match s.memberships.get? membershipId with
  | none => (s, false)
  | some m => if m.userId = userId then (s.eraseMembership membershipId, true) else (s, false)

def deleteUser (userId : String) : Directory × Bool :=
  if (s.users.get? userId).isSome then (s.eraseUser userId, true) else (s, false)

def setPassword (userId passwordHash : String) : Directory × Bool :=
  match s.users.get? userId with
  | none => (s, false)
  | some u =>
      ((s.setUser { u with passwordHash := some passwordHash }).endSessions userId, true)

def recordLogin (userId : String) : Directory :=
  match s.users.get? userId with
  | none => s
  | some u => s.setUser { u with lastLoginAt := some s.now }

/-- The earlier unused invites of the user go. -/
def createInvite (id userId token : String) (issuer : Identity) :
    Directory × Except StoreError NewInvite :=
  let others := s.invites.keep fun i => !(i.userId = userId && i.usedAt.isNone)
  let invite : Invite :=
    { id, userId, tokenHash := o.hash token, expiresAt := s.now + o.inviteTtlMs, issuer }
  if (s.users.get? userId).isNone ∨ others.values.any fun i =>
    i.id = id || i.tokenHash = o.hash token then
    (s, .error .other)
  else ({ s with invites := others.set invite }, .ok { token, expiresAt := invite.expiresAt })

/-- The invite that the token opens, with its user. -/
def findInvite (token : String) : Option (Invite × User) :=
  if isToken token then
    (s.invites.values.find? fun i =>
        i.tokenHash = o.hash token && i.usable s.now && s.isActive i.userId).bind fun i =>
      (s.users.get? i.userId).map fun u => (i, u)
  else none

def inspect (token : String) : Option InviteInfo :=
  (s.findInvite o token).map fun (i, u) =>
    { email := u.email, name := u.name, expiresAt := i.expiresAt }

def accept (token passwordHash : String) : Directory × Option Credentials :=
  match s.findInvite o token with
  | none => (s, none)
  | some (i, u) =>
      let user := { u with passwordHash := some passwordHash }
      let used := { s with invites := s.invites.set { i with usedAt := some s.now } }
      let accepted := (used.setUser user).endSessions u.id
      (accepted, some { user, revocations := accepted.revocations u.id })

/-- `findCredentialsByEmail`. -/
def findCredentials (email : String) : Option Credentials :=
  (s.findByEmail email).map fun user => { user, revocations := s.revocations user.id }

def createSession (token userId : String) (revocations : Nat) :
    Directory × Except StoreError NewInvite :=
  let row : Session :=
    { tokenHash := o.hash token, userId, lastSeenAt := s.now, revocations
      expiresAt := s.now + o.sessionMaxMs }
  if (s.users.get? userId).isNone ∨ (s.sessions.get? (o.hash token)).isSome then (s, .error .other)
  else ({ s with sessions := s.sessions.set row }, .ok { token, expiresAt := row.expiresAt })

/-- The user that the token belongs to. -/
def resolve (token : String) : Option ResolvedSession :=
  if isToken token then
    (s.sessions.get? (o.hash token)).bind fun x =>
      if x.alive o s.now && s.isActive x.userId then
        (s.users.get? x.userId).map fun user =>
          { user, expiresAt := x.expiresAt, sinceSeen := s.now - x.lastSeenAt }
      else none
  else none

def touch (token : String) : Directory :=
  match s.sessions.get? (o.hash token) with
  | none => s
  | some x => { s with sessions := s.sessions.set { x with lastSeenAt := s.now } }

def destroySession (token : String) : Directory :=
  if isToken token then { s with sessions := s.sessions.erase (o.hash token) } else s

/-- What the operation does.  It has to wait if there is no result; a transaction ends with the lock
that it has taken. -/
def exec : (op : PeopleOp) → Option (Directory × Except StoreError op.Answer)
  | .findById id => some (s, .ok (s.users.get? id))
  | .findByEmail email => some (s, .ok (s.findByEmail email))
  | .findCredentials email => some (s, .ok (s.findCredentials email))
  | .tenantExists tenantId => some (s, .ok (tenantId ∈ s.tenants : Bool))
  | .listUsers within => some (s, .ok (s.listUsers within))
  | .membershipsOf ids => some (s, .ok (s.membershipsOf ids))
  | .isWithinTenants userId tenantIds => some (s, .ok (s.isWithinTenants userId tenantIds))
  | .createUser id email name passwordHash => some (s.createUser id email name passwordHash)
  | .addMembership id userId role tenantId => some (s.addMembership id userId role tenantId)
  | .activate userId => some ((s.activate userId).1, .ok (s.activate userId).2)
  | .lockToDisable userId =>
      if s.lock.isSome then none
      else if s.notLastAdmin userId then some ({ s with lock := some (.access userId) }, .ok ())
      else some (s, .error .lastOperator)
  | .disable userId =>
      if s.lock = some (.access userId) then
        some ((s.disable userId).1.unlock, .ok (s.disable userId).2)
      else none
  | .lockToRemove userId membershipId =>
      if s.lock.isSome then none
      else
        match s.memberships.get? membershipId with
        | none => some (s, .ok false)
        | some m =>
            if m.userId ≠ userId then some (s, .ok false)
            else if m.role ∈ platformRoles ∧ s.notLastAdmin userId (some membershipId) = false then
              some (s, .error .lastOperator)
            else some ({ s with lock := some (.membership userId membershipId) }, .ok true)
  | .remove userId membershipId =>
      if s.lock = some (.membership userId membershipId) then
        some ((s.remove userId membershipId).1.unlock, .ok (s.remove userId membershipId).2)
      else none
  | .deleteUser userId => some ((s.deleteUser userId).1, .ok (s.deleteUser userId).2)
  | .setPassword userId passwordHash =>
      some ((s.setPassword userId passwordHash).1, .ok (s.setPassword userId passwordHash).2)
  | .recordLogin userId => some (s.recordLogin userId, .ok ())
  | .createInvite id userId token issuer => some (s.createInvite o id userId token issuer)
  | .inspect token => some (s, .ok (s.inspect o token))
  | .accept token passwordHash =>
      some ((s.accept o token passwordHash).1, .ok (s.accept o token passwordHash).2)
  | .createSession token userId revocations => some (s.createSession o token userId revocations)
  | .resolve token => some (s, .ok (s.resolve o token))
  | .touch token => some (s.touch o token, .ok ())
  | .destroySession token => some (s.destroySession o token, .ok ())

/-- A transaction that fails gives the lock back. -/
def rollback : PeopleOp → Directory
  | .disable userId => if s.lock = some (.access userId) then s.unlock else s
  | .remove userId membershipId =>
    if s.lock = some (.membership userId membershipId) then s.unlock else s
  | _ => s

/-- What may come of the operation: the result, or an error without an effect, or an error although
the operation has taken effect.  (If the connection breaks, the lock is not held.) -/
def outcomes (op : PeopleOp) : List (Directory × Except StoreError op.Answer) :=
  let failed : Directory × Except StoreError op.Answer := (s.rollback op, .error .other)
  match s.exec o op with
  | none => [failed]
  | some (s', answer) =>
      if op.locks then [(s', answer), failed] else [(s', answer), failed, (s', .error .other)]

/-- Time passes. -/
def wait (ms : Nat) (s : Directory) : Directory := { s with now := s.now + ms }

end Directory

end NexusWorkflow.People
