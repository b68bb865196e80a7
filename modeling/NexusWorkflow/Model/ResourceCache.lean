import NexusWorkflow.Lib.Machines

/-!
# The cache of the resources of the tenants

`TenantResourceCache` (`db/TenantResourceCache.ts`).  Its map lists the entries in the order in
which they were put in, and so does an iterator over it while entries come and go: it goes on with
the first entry that was put in after the one it has seen last.  `evict` and `endAll` wait while a
resource closes; `evict` has nothing left to do after that.
-/

namespace NexusWorkflow.ResourceCache

/-! ## State -/

/-- A resource under the id of its tenant; `slot` says when it was put into the map. -/
structure Entry where
  tenantId : String
  resource : Nat
  slot : Nat
  deriving DecidableEq

structure TenantResourceCache where
  maxSize : Nat := 100
  /-- The map. -/
  entries : List Entry := []
  /-- The number of entries that have been put in. -/
  nextSlot : Nat := 0
  /-- The number of resources that have been created. -/
  created : Nat := 0
  /-- The resources on which `end()` has been called, once for each call. -/
  ended : List Nat := []
  /-- The calls of `endAll`, with the slot from which they go on. -/
  closings : List (Option Nat) := []
  /-- Not in the source: what `get` has returned, the latest one first. -/
  uses : List Nat := []
  /-- Not in the source: what `get` has returned after `end()` had been called on it. -/
  stale : List Nat := []

namespace TenantResourceCache

variable (c : TenantResourceCache)

/-! ## Steps -/

def find? (tenantId : String) : Option Entry := c.entries.find? (·.tenantId = tenantId)

def delete (tenantId : String) : TenantResourceCache :=
  { c with entries := c.entries.filter (·.tenantId ≠ tenantId) }

def set (tenantId : String) (resource : Nat) : TenantResourceCache :=
  { c with
    entries := c.entries ++ [{ tenantId, resource, slot := c.nextSlot }]
    nextSlot := c.nextSlot + 1 }

def endResource (resource : Nat) : TenantResourceCache := { c with ended := c.ended ++ [resource] }

/-- `get` returns the resource. -/
def use (resource : Nat) : TenantResourceCache :=
  { c with
    uses := resource :: c.uses
    stale := if resource ∈ c.ended then resource :: c.stale else c.stale }

/-- The oldest entry goes if there is no room. -/
def makeRoom : TenantResourceCache :=
  if c.maxSize ≤ c.entries.length then
    match c.entries with
    | [] => c
    | oldest :: rest => { c with entries := rest }.endResource oldest.resource
  else c

def get (tenantId : String) : TenantResourceCache :=
  match c.find? tenantId with
  | some existing => ((c.delete tenantId).set tenantId existing.resource).use existing.resource
  | none => ({ c.makeRoom with created := c.created + 1 }.set tenantId c.created).use c.created

def evict (tenantId : String) : TenantResourceCache :=
  match c.find? tenantId with
  | some resource => (c.delete tenantId).endResource resource.resource
  | none => c

/-- The entry that an iterator comes to. -/
def iterate (slot : Nat) : Option Entry := c.entries.find? (slot ≤ ·.slot)

/-- The next turn of the loop of `endAll`, or what follows on it. -/
def closeNext (slot : Nat) : TenantResourceCache × Option Nat :=
  match c.iterate slot with
  | some entry => (c.endResource entry.resource, some (entry.slot + 1))
  | none => ({ c with entries := [] }, none)

end TenantResourceCache

inductive Happening where
  | get (tenantId : String)
  | evict (tenantId : String)
  | endAll
  /-- The resource that a call of `endAll` waits for has closed. -/
  | closed (k : Nat)
  /-- It has not, and the call is over. -/
  | closingFailed (k : Nat)

def TenantResourceCache.step (c : TenantResourceCache) : Happening → Option TenantResourceCache
  | .get tenantId => some (c.get tenantId)
  | .evict tenantId => some (c.evict tenantId)
  | .endAll => some { (c.closeNext 0).1 with closings := c.closings ++ [(c.closeNext 0).2] }
  | .closed k =>
    match c.closings[k]? with
    | some (some slot) =>
        some { (c.closeNext slot).1 with closings := c.closings.set k (c.closeNext slot).2 }
    | _ => none
  | .closingFailed k =>
    match c.closings[k]? with
    | some (some _) => some { c with closings := c.closings.set k none }
    | _ => none

end NexusWorkflow.ResourceCache
