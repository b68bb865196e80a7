import NexusWorkflow.Model.Persist

/-!
# Reading the variables of a token

`getScopeChain` of the stores, and those who read it: a task worker (`worker/TaskWorker.ts`) before
it calls a handler, and `GET /tasks/:id` (`http/tasks.ts`).  A query for one scope is an `await`,
and other requests may commit between two of them.
-/

namespace NexusWorkflow

/-- `getScopeChain`: the scope of an id and its ancestors, innermost first.  `none` when the fuel is
used up; on a cycle of scopes the source does not come to an end. -/
def getScopeChain : Nat → Option Nat → Reading Store (Option (List VariableScope))
  | _, none => pure (some [])
  | 0, some _ => pure none
  | fuel + 1, some id => do
      match ← Reading.ask (·.getScope id) with
      | none => pure (some [])
      | some scope => do
          let chain ← getScopeChain fuel scope.parentScopeId
          pure (chain.map (scope :: ·))

namespace TaskWorker

/-- `mergeScopes`: from the last scope of the chain to the first. -/
def mergeScopes (chain : List VariableScope) : Variables :=
  chain.foldr (fun scope merged => merged.assign scope.vars) ∅

/-- `TaskContext.variables`: what the handler of a waiting token is given. -/
def contextVariables (fuel : Nat) (token : Token) : Reading Store (Option Variables) := do
  let chain ← getScopeChain fuel (some token.scopeId)
  pure (chain.map mergeScopes)

end TaskWorker

/-- `unwrapVariables`. -/
def unwrapVariables (vars : Variables) : List (String × Value) :=
  vars.values.map fun (name, v) => (name, v.value)

/-- The answer to `GET /tasks/:id`. -/
inductive TaskReply where
  | notFound
  | found (task : UserTaskRecord) (vars : List (String × Value))

/-- `GET /tasks/:id`; without its token, a task has no variables. -/
def getTask (order : RowOrder) (fuel : Nat) (taskId : Nat) : Reading Store (Option TaskReply) := do
  match ← Reading.ask (·.userTasks.get? taskId) with
  | none => pure (some .notFound)
  | some task => do
      let tokens ← Reading.ask (·.getAllTokens order task.instanceId)
      match tokens.find? (·.id = task.tokenId) with
      | none => pure (some (.found task []))
      | some token => do
          let chain ← getScopeChain fuel (some token.scopeId)
          pure (chain.map fun chain => .found task (unwrapVariables
            (chain.reverse.foldl (fun vars scope => vars.merge scope.vars) ∅)))

end NexusWorkflow
