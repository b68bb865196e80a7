import NexusWorkflow.Model.UserAdmin

/-!
# Signing in

What people, programs and the command line ask of the database: the sign-in routes (`http/auth.ts`),
the guard of the people routes (`http/middleware/operator.ts`), and the commands that create and
remove administrators (`auth/createSystemAdmin.ts`, `auth/createOperator.ts`).  The throttle is a
module of its own.
-/

namespace NexusWorkflow.People

/-! ## Sessions -/

namespace SessionStore

/-- `resolve`: the session is marked as seen from time to time. -/
def resolve (token : String) : Task (Option ResolvedSession) := do
  match ← await (.resolve token) with
  | none => return none
  | some found =>
      if 60000 < found.sinceSeen then do
        await (.touch token)
        return some found
      else return some found

end SessionStore

/-- `startSession`: the session that the browser arrived with is retired. -/
def startSession (previous : Option String) (token userId : String) (revocations : Nat) :
    Task Unit := do
  match previous with
  | none => pure ()
  | some previous => await (.destroySession previous)
  let _ ← await (.createSession token userId revocations)
  await (.recordLogin userId)

/-- `POST /login`, from the moment in which the credentials are read. -/
def login (o : PeopleOptions) (email password : String) (previous : Option String)
    (token : String) : Task (Option UserWithMemberships) := do
  let credentials ← (match o.normalizeEmail email with
    | none => pure none
    | some email => await (.findCredentials email) : Task (Option Credentials))
  match credentials with
  | none => return none
  | some { user, revocations } =>
      if o.verify password user.passwordHash && user.status = .active then do
        startSession previous token user.id revocations
        UserStore.getWithMemberships user.id
      else return none

/-- `POST /accept-invite`. -/
def acceptInvite (o : PeopleOptions) (inviteToken password : String) (previous : Option String)
    (token : String) : Task (Option UserWithMemberships) := do
  match ← await (.inspect inviteToken) with
  | none => return none
  | some _ =>
      match o.hashPassword password with
      | none => return none
      | some passwordHash =>
          match ← await (.accept inviteToken passwordHash) with
          | none => return none
          | some { user, revocations } => do
              startSession previous token user.id revocations
              let memberships ← await (.membershipsOf [user.id])
              return some { user, memberships }

def logout (token : String) : Task Unit := await (.destroySession token)

/-! ## The people routes -/

/-- What a request brings along. -/
inductive Credential where
  | adminKey
  | operatorKey (keyId keyName : String)
  | session (token : String)

/-- `createPeopleAdminGuard`. -/
def peopleAdminGuard : Credential → Task (Option Principal)
  | .adminKey => return some .adminKey
  | .operatorKey keyId keyName => return some (.operatorKey keyId keyName)
  | .session token => do
      match ← SessionStore.resolve token with
      | none => return none
      | some found => do
          let memberships ← await (.membershipsOf [found.user.id])
          let principal : Principal := .user found.user memberships
          return if isOperator principal || managedTenantIds principal ≠ [] then some principal
            else none

/-- A request to `UserAdmin`. -/
inductive PeopleRequest where
  | list
  | get (userId : String)
  | create (request : CreateUserRequest)
  | setStatus (userId : String) (status : UserStatus)
  | addMembership (userId : String) (request : MembershipRequest)
  | removeMembership (userId membershipId : String)
  | reinvite (userId : String)

/-- What is done for the request; its answer is for the one who asks. -/
def PeopleRequest.perform (o : PeopleOptions) (ids : Nat → String) (actor : Principal) :
    PeopleRequest → Task Unit
  | list => (fun _ => ()) <$> UserAdmin.list actor
  | get userId => (fun _ => ()) <$> UserAdmin.get actor userId
  | create request => (fun _ => ()) <$> UserAdmin.create o ids actor request
  | setStatus userId status => (fun _ => ()) <$> UserAdmin.setStatus actor userId status
  | addMembership userId request =>
    (fun _ => ()) <$> UserAdmin.addMembership ids actor userId request
  | removeMembership userId membershipId =>
      (fun _ => ()) <$> UserAdmin.removeMembership actor userId membershipId
  | reinvite userId => (fun _ => ()) <$> UserAdmin.reinvite ids actor userId

/-! ## The command line -/

/-- The role that a command gives: `createSystemAdminWithInvite` and `createOperatorWithInvite`. -/
def createAdminWithInvite (o : PeopleOptions) (ids : Nat → String) (role : MembershipRole)
    (email name : String) : Task Unit := do
  match o.normalizeEmail email with
  | none => throw (.userInput "Invalid email address")
  | some email => do
      let user ← (do
        match ← await (.findByEmail email) with
        | some user => return user
        | none => UserStore.createUser o (ids 0) email name : Task User)
      let user ← (if user.status ≠ .active then do
          let _ ← UserStore.setStatus user.id .active
          return (← await (.findById user.id)).getD user
        else return user : Task User)
      let _ ← UserStore.addMembership (ids 3) user.id role none
      let _ ← await (.createInvite (ids 1) user.id (ids 2) .commandLine)

/-- `removeSystemAdmin`. -/
def removeSystemAdmin (o : PeopleOptions) (email : String) : Task Bool := do
  match o.normalizeEmail email with
  | none => throw (.userInput "Invalid email address")
  | some email =>
      match ← await (.findByEmail email) with
      | none => throw (.userInput "No user with this email")
      | some user =>
          match (← await (.membershipsOf [user.id])).find? fun m => m.role = .systemAdmin with
          | none => return false
          | some membership => do
              let _ ← UserStore.removeMembership user.id membership.id
              return true

/-! ## Jobs -/

/-- Something that is asked of the platform; the random texts that it draws come with it. -/
inductive PeopleJob where
  | people (credential : Credential) (ids : Nat → String) (request : PeopleRequest)
  | login (email password : String) (previous : Option String) (token : String)
  | inviteInfo (inviteToken : String)
  | acceptInvite (inviteToken password : String) (previous : Option String) (token : String)
  | logout (token : String)
  /-- `UserStore.setPassword`. -/
  | setPassword (userId passwordHash : String)
  | createSystemAdmin (ids : Nat → String) (email name : String)
  | removeSystemAdmin (email : String)
  | createOperator (ids : Nat → String) (email name : String)

def PeopleJob.task (o : PeopleOptions) : PeopleJob → Task Unit
  | people credential ids request => do
      match ← peopleAdminGuard credential with
      | none => return ()
      | some actor => request.perform o ids actor
  | login email password previous token =>
    (fun _ => ()) <$> People.login o email password previous token
  | inviteInfo inviteToken => (fun _ => ()) <$> await (.inspect inviteToken)
  | acceptInvite inviteToken password previous token =>
      (fun _ => ()) <$> People.acceptInvite o inviteToken password previous token
  | logout token => People.logout token
  | setPassword userId passwordHash => (fun _ => ()) <$> await (.setPassword userId passwordHash)
  | createSystemAdmin ids email name => createAdminWithInvite o ids .systemAdmin email name
  | removeSystemAdmin email => (fun _ => ()) <$> People.removeSystemAdmin o email
  | createOperator ids email name => createAdminWithInvite o ids .operator email name

def PeopleJob.program (o : PeopleOptions) (job : PeopleJob) :
    Process PeopleOp PeopleOp.Answer StoreError (Except StoreError Unit) :=
  (job.task o).run

/-- A database and the jobs that run on it. -/
abbrev Platform := World Directory PeopleOp PeopleOp.Answer StoreError (Except StoreError Unit)

/-- A run of jobs in which the operations meet the condition. -/
abbrev Platform.Leads (o : PeopleOptions) (C : Directory → PeopleOp → Prop) :
    Platform → Platform → Prop :=
  World.Leads (Directory.outcomes o) (PeopleJob.program o) Directory.wait C

/-- Any operation. -/
def anyPeopleOp : Directory → PeopleOp → Prop := fun _ _ => True

instance (s : Directory) (op : PeopleOp) : Decidable (anyPeopleOp s op) := instDecidableTrue

end NexusWorkflow.People
