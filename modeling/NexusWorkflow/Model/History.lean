import NexusWorkflow.Model.Context

/-!
# Step history

`deriveHistory`: the history entries of one execution cycle, read off the tokens that finished in
it.  A visit to an element is a token, which starts when it is created and ends when it is completed
or cancelled.  `StepForced` is the one event of a cycle that the engine does not emit.
-/

namespace NexusWorkflow

inductive ForcedAction where
  | completeServiceTask | completeUserTask | failServiceTask | fireTimer
  deriving DecidableEq

/-- `StepForced`: a person pushed a stuck step along by hand. -/
structure StepForced where
  instanceId : Nat
  tokenId : Nat
  elementId : String
  action : ForcedAction
  forcedBy : String
  reason : String
  onBehalfOf : Option String := none

/-- An event of a cycle, from the engine or from the app. -/
inductive CycleEvent where
  | engine (event : ExecutionEvent)
  | forced (event : StepForced)

inductive HistoryStatus where
  | completed | cancelled | error
  deriving DecidableEq

/-- `HistoryEntry['forced']`. -/
structure ForcedStep where
  action : ForcedAction
  /-- The source's `by`, a Lean keyword. -/
  forcedBy : String
  reason : String
  onBehalfOf : Option String

structure HistoryEntry where
  id : Nat
  instanceId : Nat
  tokenId : Nat
  elementId : String
  elementType : BpmnElementType
  status : HistoryStatus
  startedAt : Time
  completedAt : Time
  variablesSnapshot : Option Variables
  forced : Option ForcedStep

/-- `MAX_SNAPSHOT_BYTES`. -/
def maxSnapshotBytes : Nat := 64 * 1024

/-- `t.status === 'completed' || t.status === 'cancelled'`. -/
def Token.ended (t : Token) : Bool := t.status = .completed || t.status = .cancelled

/-- `wasOver`: the ids of the tokens that were over before the cycle. -/
def wasOver (oldState : Option EngineState) : List Nat :=
  (((oldState.map (·.tokens)).getD []).filter Token.ended).map (·.id)

/-- `threwError`: the ids of the tokens that threw an error. -/
def threwError (events : List CycleEvent) : List Nat :=
  events.filterMap fun
    | .engine (.errorThrown _ tokenId _ _) => some tokenId
    | _ => none

/-- `forcedBy`: what a person did, by token; a later event replaces an earlier one. -/
def forcedBy (events : List CycleEvent) : KeyedMap (Prod.fst : Nat × ForcedStep → Nat) :=
  KeyedMap.ofList (events.filterMap fun
    | .forced e =>
        some (e.tokenId,
          { action := e.action, forcedBy := e.forcedBy, reason := e.reason,
            onBehalfOf := truthy e.onBehalfOf })
    | .engine _ => none)

/-- The scopes around a scope, innermost first.  A scope that comes up again ends the chain, so it
has no more links than there are scopes. -/
def snapshotChain (scopes : KeyedMap VariableScope.id) :
    Nat → Option Nat → List VariableScope → List VariableScope
  | _, none, chain => chain
  | 0, some _, chain => chain
  | fuel + 1, some id, chain =>
      match scopes.get? id with
      | none => chain
      | some scope =>
          if chain.any (·.id = scope.id) then chain
          else snapshotChain scopes fuel scope.parentScopeId (chain ++ [scope])

/-- `snapshotFor`: the variables the token can see, if there are any and not too many.  `jsonLength`
is the length of their JSON text. -/
def snapshotFor (jsonLength : Variables → Nat) (maxBytes : Nat) (newState : EngineState)
    (scopeId : Nat) : Option Variables :=
  let scopes : KeyedMap VariableScope.id := KeyedMap.ofList newState.scopes
  let chain := snapshotChain scopes scopes.values.length (some scopeId) []
  let merged := chain.reverse.foldl (fun merged scope => merged.assign scope.vars) (∅ : Variables)
  if merged.values.isEmpty then none
  else if maxBytes < jsonLength merged then none
  else some merged

/-- `threwError.has(token.id) ? 'error' : token.status`, for a token that is over. -/
def historyStatus (events : List CycleEvent) (token : Token) : HistoryStatus :=
  if token.id ∈ threwError events then .error
  else if token.status = .completed then .completed
  else .cancelled

/-- The entry of a token that the cycle finished. -/
def historyEntry (jsonLength : Variables → Nat) (maxBytes : Nat) (newState : EngineState)
    (events : List CycleEvent) (token : Token) : HistoryEntry where
  id := token.id
  instanceId := newState.inst.id
  tokenId := token.id
  elementId := token.elementId
  elementType := token.elementType
  status := historyStatus events token
  startedAt := token.createdAt
  completedAt := token.updatedAt
  variablesSnapshot := snapshotFor jsonLength maxBytes newState token.scopeId
  forced := ((forcedBy events).get? token.id).map Prod.snd

/-- Oldest visit first, then in the order in which the engine holds them. -/
def HistoryEntry.notAfter (a b : HistoryEntry × Nat) : Prop :=
  a.1.completedAt < b.1.completedAt ∨ a.1.completedAt = b.1.completedAt ∧
    (a.1.startedAt < b.1.startedAt ∨ a.1.startedAt = b.1.startedAt ∧ a.2 ≤ b.2)

instance (a b : HistoryEntry × Nat) : Decidable (HistoryEntry.notAfter a b) :=
  inferInstanceAs (Decidable (_ ∨ _))

def deriveHistory (jsonLength : Variables → Nat) (oldState : Option EngineState)
    (newState : EngineState) (events : List CycleEvent) (maxBytes : Nat := maxSnapshotBytes) :
    List HistoryEntry :=
  let finished := newState.tokens.filter fun token =>
    token.id ∉ wasOver oldState && token.ended
  let entries := finished.map (historyEntry jsonLength maxBytes newState events)
  (entries.zipIdx.insertionSort HistoryEntry.notAfter).map Prod.fst

end NexusWorkflow
