import NexusWorkflow.Run.Run

/-!
# Replaying commands

A run on given commands, computed: every call is made at a stopped clock, and the ids go on where
the call before left off.
-/

namespace NexusWorkflow

variable (d : ProcessDefinition) (evaluate : String → Variables → Except EngineError Value)

/-- A call at a stopped clock. -/
def stopped (firstId : Nat) : ExecuteOptions := { firstId, now := fun _ => 0, evaluate }

/-- A run, with its history, the state it leads to and the next unused id. -/
structure Replay where
  steps : List Step
  state : EngineState
  nextId : Nat

/-- Call `execute` once more. -/
def replayOne (fuel : Nat) (replay : Replay) (command : EngineCommand) :
    Except EngineError Replay := do
  let options := stopped evaluate replay.nextId
  let result ← execute d fuel command (some replay.state) options
  .ok { steps := replay.steps ++ cycleSteps d fuel command (some replay.state) options
        state := result.newState
        nextId := result.nextId }

/-- Start the process and apply the commands one after the other. -/
def replay (fuel : Nat) (vars : Option Variables) (commands : List EngineCommand) :
    Except EngineError Replay := do
  let options := stopped evaluate 0
  let result ← execute d fuel (.startProcess vars none none) none options
  commands.foldlM (replayOne d evaluate fuel)
    { steps := cycleSteps d fuel (.startProcess vars none none) none options
      state := result.newState
      nextId := result.nextId }

variable {d evaluate}

theorem replayOne_run {fuel : Nat} {r r' : Replay} {command : EngineCommand}
    (hrun : Run d r.steps r.state r.nextId) (h : replayOne d evaluate fuel r command = .ok r') :
    Run d r'.steps r'.state r'.nextId := by
  obtain ⟨result, hresult, h⟩ := Except.bind_eq_ok_iff.1 h
  rw [← Except.ok.inj h]
  exact hrun.next (le_refl _) hresult

theorem foldlM_replayOne_run {fuel : Nat} {r r' : Replay} {commands : List EngineCommand}
    (hrun : Run d r.steps r.state r.nextId)
    (h : commands.foldlM (replayOne d evaluate fuel) r = .ok r') :
    Run d r'.steps r'.state r'.nextId := by
  induction commands generalizing r with
  | nil =>
    rw [List.foldlM_nil, Except.pure_eq_ok_iff] at h
    exact h ▸ hrun
  | cons command commands ih =>
    obtain ⟨mid, hmid, h⟩ := Except.foldlM_cons_eq_ok_iff.1 h
    exact ih (replayOne_run hrun hmid) h

theorem replay_run {fuel : Nat} {vars : Option Variables} {commands : List EngineCommand}
    {r : Replay} (h : replay d evaluate fuel vars commands = .ok r) :
    Run d r.steps r.state r.nextId := by
  obtain ⟨result, hresult, h⟩ := Except.bind_eq_ok_iff.1 h
  exact foldlM_replayOne_run (.start hresult) h

/-- A run on which a test succeeds. -/
theorem exists_run_of_replay (d : ProcessDefinition)
    (evaluate : String → Variables → Except EngineError Value) (fuel : Nat)
    (vars : Option Variables) (commands : List EngineCommand) (test : Replay → Bool)
    (h : (replay d evaluate fuel vars commands).toOption.any test = true) :
    ∃ r : Replay, Run d r.steps r.state r.nextId ∧ test r = true := by
  cases hr : replay d evaluate fuel vars commands with
  | error e => simp [hr, Except.toOption] at h
  | ok r =>
    rw [hr] at h
    exact ⟨r, replay_run hr, h⟩

/-- A run and one more call, on which a test succeeds. -/
theorem exists_call_of_replay (d : ProcessDefinition)
    (evaluate : String → Variables → Except EngineError Value) (fuel : Nat)
    (vars : Option Variables) (commands : List EngineCommand) (command : EngineCommand)
    (test : Replay → EngineResult → Bool)
    (h : (replay d evaluate fuel vars commands).toOption.any (fun r =>
      (execute d fuel command (some r.state) (stopped evaluate r.nextId)).toOption.any (test r)) =
        true) :
    ∃ (r : Replay) (result : EngineResult),
      Call d r.steps command (some r.state) (stopped evaluate r.nextId) ∧
      execute d fuel command (some r.state) (stopped evaluate r.nextId) = .ok result ∧
      test r result = true := by
  obtain ⟨r, hrun, htest⟩ := exists_run_of_replay d evaluate fuel vars commands _ h
  cases hr : execute d fuel command (some r.state) (stopped evaluate r.nextId) with
  | error e => simp [hr, Except.toOption] at htest
  | ok result =>
    rw [hr] at htest
    exact ⟨r, result, .next hrun command (le_refl _), hr, htest⟩

end NexusWorkflow
