import NexusWorkflow.Proof.TaskStates

/-!
# One advance for each waiting token

Polls, duplicated events, completions, forced steps and retries are jobs like all others.  A token
that has ceased to wait does not wait again, and a command that commits was evaluated on the tokens
that are there.
-/

namespace NexusWorkflow

variable {definitions : String → Nat → Option ProcessDefinition} {now new : Store} {job : Job}

/-- A token of the id waits. -/
def Store.Waits (store : Store) (tokenId : Nat) : Prop :=
  ∃ t ∈ store.tokens.values, t.id = tokenId ∧ t.status = .waiting

instance (store : Store) (tokenId : Nat) : Decidable (store.Waits tokenId) :=
  inferInstanceAs (Decidable (∃ t ∈ store.tokens.values, t.id = tokenId ∧ t.status = .waiting))

/-- From one store to the other, the token is taken out of its waiting state. -/
def Takes (tokenId : Nat) (before after : Store) : Prop :=
  before.Waits tokenId ∧ ¬ after.Waits tokenId

/-- The command has been evaluated on the tokens that the instance has in the store, and its result
has replaced them. -/
def Evaluated (now : Store) (instanceId : Nat) (command : EngineCommand) (new : Store) : Prop :=
  ∃ d fuel state version options result, now.Offers state version ∧ state.inst.id = instanceId ∧
    execute d fuel command (some state) options = .ok result ∧ now.Replaced result.newState new

/-- What has ceased to wait does not wait later on. -/
theorem Store.Onward.not_waits {s s' : Store} (h : s.Onward s') {t : Token}
    (ht : t ∈ s.tokens.values) (hnot : ¬ s.Waits t.id) : ¬ s'.Waits t.id := by
  rintro ⟨x, hx, hid, hw⟩
  exact h.ceased t ht (fun hw' => hnot ⟨t, ht, rfl, hw'⟩) x hx hid hw

/-- A job runs one command. -/
theorem Job.Runs.unique {i i' : Nat} {command command' : EngineCommand}
    (h : job.Runs now i command) (h' : job.Runs now i' command') : i = i' ∧ command = command' := by
  cases h with
  | cycle =>
    cases h'
    exact ⟨rfl, rfl⟩
  | cancel =>
    cases h'
    exact ⟨rfl, rfl⟩
  | force =>
    cases h'
    exact ⟨rfl, rfl⟩
  | @complete _ _ _ _ r hr hid =>
    cases h' with
    | @complete _ _ _ _ r' hr' hid' =>
      obtain rfl : r' = r := KeyedMap.eq_of_key_eq hr' hr (hid'.trans hid.symm)
      exact ⟨rfl, rfl⟩

/-- A job with a command that commits has evaluated it on what is there. -/
theorem Job.Changes.evaluated (h : job.Changes now new) {instanceId : Nat} {command : EngineCommand}
    (hruns : job.Runs now instanceId command) : Evaluated now instanceId command new := by
  cases h with
  | start _ | claim _ _ | release _ _ => cases hruns
  | @cycle _ d fuel version _ state _ options result _ _ hruns' hoffers hok hadvances =>
    obtain ⟨rfl, rfl⟩ := hruns'.unique hruns
    exact ⟨d, fuel, state, version, options, result, hoffers, rfl, hok, hadvances.tasks.rows⟩

/-- A command that has been evaluated is about a token that waited. -/
theorem Evaluated.waits {instanceId tokenId : Nat} {command : EngineCommand}
    (h : Evaluated now instanceId command new) (hid : command.tokenId? = some tokenId) :
    now.Waits tokenId := by
  obtain ⟨d, fuel, state, version, options, result, hoffers, -, hok, -⟩ := h
  obtain ⟨t, ht, htid, -, hw⟩ := hoffers.waits hok hid
  exact ⟨t, ht, htid, hw⟩

/-! ## Runs -/

variable {ι : Type} [DecidableEq ι] {S : Shared ι Job Store}

theorem newIds_kept :
    Shared.Kept (Job.program definitions) newIds Store.Orderly Store.Onward :=
  jobs_kept fun _ _ _ h => h

/-- However the jobs of any number of actors interleave: a waiting token is taken out of its waiting
state by one commit at most; a step leaves the store as it is, or it commits a command that was
evaluated on the tokens that are there; and the transaction of an actor whose token waits no longer
is refused. -/
theorem one_advance
    (hrun : Shared.Leads (Job.program definitions) newIds (Shared.fresh ∅) S) :
    (∀ (tokenId : Nat) (S₁ S₂ S₃ : Shared ι Job Store),
      Shared.Leads (Job.program definitions) newIds S S₁ → Takes tokenId S.state S₁.state →
      Shared.Leads (Job.program definitions) newIds S₁ S₂ →
      Shared.Leads (Job.program definitions) newIds S₂ S₃ → ¬ Takes tokenId S₂.state S₃.state) ∧
    (∀ S₁ : Shared ι Job Store, Shared.Moves (Job.program definitions) newIds S S₁ →
      S₁.state = S.state ∨ ∃ job, S₁.committed = S.committed ++ [job] ∧
        ∀ instanceId command, job.Runs S.state instanceId command →
          Evaluated S.state instanceId command S₁.state) ∧
    ∀ (i : ι) (session : Session Job Store) (txn : Transaction Store) (instanceId tokenId : Nat)
      (command : EngineCommand), S.sessions i = some session → session.rest = .done (some txn) →
      session.job.HasNewIds S.state → session.job.Runs S.state instanceId command →
      command.tokenId? = some tokenId → ¬ S.state.Waits tokenId → txn S.state = none := by
  have hsound := (hrun.kept newIds_kept (.fresh orderly_empty)).1
  refine ⟨fun tokenId S₁ S₂ S₃ hmore htakes hlater _ htakes' => ?_, fun S₁ hmove => ?_,
    fun i session txn instanceId tokenId command hi hrest hids hruns htoken hnot => ?_⟩
  · obtain ⟨⟨t, ht, rfl, -⟩, hnot⟩ := htakes
    obtain ⟨hsound₁, hfirst⟩ := hmore.kept newIds_kept hsound
    obtain ⟨x, hx, hxid, -⟩ := hfirst.kept t ht
    have hlast := (hlater.kept newIds_kept hsound₁).2
    rw [← hxid] at hnot htakes'
    exact hlast.not_waits hx hnot htakes'.1
  · rcases hmove.cases hsound with ⟨hsame, -⟩ | ⟨job, seen, txn, hcommitted, hcommits⟩
    · exact .inl hsame
    · have hchanges := Job.changes hsound.state id hcommits
      exact .inr ⟨job, hcommitted, fun instanceId command hruns => hchanges.evaluated hruns⟩
  · by_contra hsome
    obtain ⟨new, hnew⟩ := Option.ne_none_iff_exists'.1 hsome
    obtain ⟨job, rest, seen⟩ := session
    subst hrest
    have htraced := hsound.traced i _ hi
    have hgives := htraced.whole [] _ (.done _)
    rw [List.append_nil] at hgives
    have hchanges := Job.changes hsound.state (fun hC => hC)
      (⟨hids, hgives, htraced.onward, hnew⟩ :
        Shared.Commits (Job.program definitions) newIds Store.Onward S.state job seen txn new)
    exact hnot ((hchanges.evaluated hruns).waits htoken)

/-! ## An errand -/

open Diagram

instance (tokenId : Nat) (before after : Store) : Decidable (Takes tokenId before after) :=
  inferInstanceAs (Decidable (_ ∧ _))

/-- A worker completes the first task of an errand.  Nobody does so again. -/
theorem one_advance_errand : ∃ store store' : Store,
    Shared.performs (Job.program fun _ _ => some errand) Job.HasNewIds
      [.start errand none none none (circumstances 0)] ∅ = some store ∧
    Shared.performs (Job.program fun _ _ => some errand) Job.HasNewIds
      [.cycle 0 (workerCompletes 3 10) .worker] store = some store' ∧ Takes 3 store store' ∧
    ∀ S₂ S₃ : Shared Bool Job Store,
      Shared.Leads (Job.program fun _ _ => some errand) newIds ⟨store', fun _ => none,
        [.start errand none none none (circumstances 0), .cycle 0 (workerCompletes 3 10) .worker]⟩
          S₂ →
      Shared.Leads (Job.program fun _ _ => some errand) newIds S₂ S₃ →
        ¬ Takes 3 S₂.state S₃.state := by
  have hruns : (Shared.performs (Job.program fun _ _ => some errand) Job.HasNewIds
      [.start errand none none none (circumstances 0)] ∅).any (fun store =>
        (Shared.performs (Job.program fun _ _ => some errand) Job.HasNewIds
          [.cycle 0 (workerCompletes 3 10) .worker] store).any fun store' => Takes 3 store store') =
        true := by decide +kernel
  obtain ⟨store, hstore, hmore⟩ := (Option.any_eq_true ..).1 hruns
  obtain ⟨store', hstore', htakes⟩ := (Option.any_eq_true ..).1 hmore
  have htakes : Takes 3 store store' := of_decide_eq_true htakes
  have hrun : Shared.Leads (Job.program fun _ _ => some errand) newIds
      (Shared.fresh ∅ : Shared Bool Job Store)
      ⟨store, fun _ => none, [.start errand none none none (circumstances 0)]⟩ :=
    Shared.Leads.performs (fun _ _ _ _ h => h) _ .refl hstore
  exact ⟨store, store', hstore, hstore', htakes, fun S₂ S₃ hlater hlast =>
    (one_advance hrun).1 3 _ S₂ S₃
      (Shared.Leads.performs (fun _ _ _ _ h => h) _ .refl hstore') htakes hlater hlast⟩

end NexusWorkflow
