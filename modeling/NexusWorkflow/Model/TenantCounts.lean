import NexusWorkflow.Model.Tenants

/-!
# The list of tenants with their counts

`GET /tenants?counts=true` (`http/tenants.ts`): each tenant with how busy it is, a few of them
counted at a time.
-/

namespace NexusWorkflow.Tenancy

variable {ρ ε κ : Type}

/-! ## A few calls at a time -/

/-- What the workers of `mapWithLimit` share: the index of the next item, the indices of those that
are being worked on, and the results so far. -/
structure Workers (ρ ε : Type) where
  size : Nat
  next : Nat := 0
  running : List Nat := []
  results : List (Option ρ)
  /-- What the first worker that has failed has failed with. -/
  rejected : Option ε := none

/-- The beginning of a turn of the loop of a worker: it takes the next item, or ends. -/
def Workers.turn (w : Workers ρ ε) : Workers ρ ε :=
  if w.next < w.size then { w with next := w.next + 1, running := w.running ++ [w.next] } else w

/-- `mapWithLimit`, until all workers wait. -/
def mapWithLimit (size limit : Nat) : Workers ρ ε :=
  Workers.turn^[min limit size] { size, results := List.replicate size none }

/-- The call for an item has come to an end; a worker goes on only with a result. -/
def Workers.settle (w : Workers ρ ε) (index : Nat) : Except ε ρ → Workers ρ ε
  | .ok result =>
      Workers.turn
        { w with
          running := w.running.erase index
          results := w.results.set index (some result) }
  | .error e => { w with running := w.running.erase index, rejected := w.rejected.or (some e) }

/-- What `mapWithLimit` has come to: `Promise.all` is rejected by the first worker that fails. -/
def Workers.outcome (w : Workers ρ ε) : Option (Except ε (List (Option ρ))) :=
  match w.rejected with
  | some e => some (.error e)
  | none => if w.running = [] then some (.ok w.results) else none

/-- The calls come to an end one after the other, in any order; `calls` is what the one for each
item gives. -/
inductive Maps (calls : List (Except ε ρ)) (limit : Nat) : List Nat → Workers ρ ε → Prop
  | start : Maps calls limit [] (mapWithLimit calls.length limit)
  | settle {settled : List Nat} {w : Workers ρ ε} {index : Nat} {answer : Except ε ρ}
      (h : Maps calls limit settled w) (hrunning : index ∈ w.running)
      (hanswer : calls[index]? = some answer) :
      Maps calls limit (settled ++ [index]) (w.settle index answer)

/-! ## The route -/

structure TenantSummary extends Tenant where
  activeKeyCount : Nat

/-- `COUNT_CONCURRENCY`. -/
def countConcurrency : Nat := 5

/-- The counts of a tenant: none if they cannot be read. -/
def countsOf (readCounts : String → Except ε κ) (tenant : TenantSummary) : Option κ :=
  if tenant.status = .deleting then none else (readCounts tenant.id).toOption

/-- The function that is mapped over the tenants. -/
def withCounts (readCounts : String → Except ε κ) (tenant : TenantSummary) :
    Except ε (TenantSummary × Option κ) :=
  .ok (tenant, countsOf readCounts tenant)

end NexusWorkflow.Tenancy
