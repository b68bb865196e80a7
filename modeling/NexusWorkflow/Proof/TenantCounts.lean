import NexusWorkflow.Model.TenantCounts

/-!
# A few calls at a time give what all of them would

In whatever order the calls come to an end, there are never more of them than the limit, each item
is worked on once, and the results are in the order of the items.
-/

namespace NexusWorkflow.Tenancy

variable {ρ ε κ : Type} {calls : List (Except ε ρ)} {limit index : Nat} {settled : List Nat}
    {w : Workers ρ ε}

/-! ## What the workers keep -/

def failure : Except ε ρ → Option ε
  | .ok _ => none
  | .error e => some e

/-- The result of a call, if it has one. -/
def resultOf (calls : List (Except ε ρ)) (index : Nat) : Option ρ :=
  calls[index]?.bind Except.toOption

def failureOf (calls : List (Except ε ρ)) (index : Nat) : Option ε := calls[index]?.bind failure

/-- The items before the next one are worked on or settled, and no worker is idle as long as there
are others. -/
structure Workers.Sound (calls : List (Except ε ρ)) (limit : Nat) (settled : List Nat)
    (w : Workers ρ ε) : Prop where
  size : w.size = calls.length
  perm : (w.running ++ settled).Perm (List.range w.next)
  next_le : w.next ≤ w.size
  bounded : w.running.length ≤ min limit w.size
  busy : w.rejected = none → w.next < w.size → w.running.length = min limit w.size
  length : w.results.length = w.size
  results : ∀ i < w.size, w.results[i]? = some (if i ∈ settled then resultOf calls i else none)
  rejected : w.rejected = settled.findSome? (failureOf calls)

theorem iterate_turn {size n : Nat} (h : n ≤ size) :
    Workers.turn^[n] ({ size, results := List.replicate size none } : Workers ρ ε) =
      { size, next := n, running := List.range n, results := List.replicate size none } := by
  induction n with
  | zero => rfl
  | succ n ih =>
    rw [Function.iterate_succ_apply', ih (Nat.le_of_succ_le h), List.range_succ]
    exact if_pos h

theorem sound_mapWithLimit :
    (mapWithLimit calls.length limit : Workers ρ ε).Sound calls limit [] := by
  rw [mapWithLimit, iterate_turn (Nat.min_le_right _ _)]
  constructor
  case size => rfl
  case perm => rw [List.append_nil]
  case next_le => exact Nat.min_le_right _ _
  case bounded => exact List.length_range.le
  case busy => exact fun _ _ => List.length_range
  case length => exact List.length_replicate
  case results =>
    intro i hi
    rw [if_neg List.not_mem_nil]
    exact List.getElem?_replicate_of_lt hi
  case rejected => rfl

theorem perm_settle (settled : List Nat) (hrunning : index ∈ w.running) :
    (w.running.erase index ++ (settled ++ [index])).Perm (w.running ++ settled) := by
  have hcycle : (w.running.erase index ++ (settled ++ [index])).Perm
      (index :: (w.running.erase index ++ settled)) := by
    rw [← List.append_assoc]
    exact List.perm_append_singleton index _
  exact hcycle.trans ((List.perm_cons_erase hrunning).append_right settled).symm

/-- A worker that goes on to the next item. -/
theorem length_next (hrunning : index ∈ w.running) (next : Nat) :
    (w.running.erase index ++ [next]).length = w.running.length := by
  rw [List.length_append, List.length_singleton, List.length_erase_of_mem hrunning]
  exact Nat.succ_pred_eq_of_pos (List.length_pos_of_mem hrunning)

namespace Workers.Sound

variable (h : w.Sound calls limit settled)
include h

theorem settle_error {e : ε} (hrunning : index ∈ w.running)
    (hanswer : calls[index]? = some (.error e)) :
    (w.settle index (.error e)).Sound calls limit (settled ++ [index]) := by
  have hperm := (perm_settle settled hrunning).trans h.perm
  have hfailure : failureOf calls index = some e := by rw [failureOf, hanswer]; rfl
  have hresult : resultOf calls index = none := by rw [resultOf, hanswer]; rfl
  constructor
  case size => exact h.size
  case perm => exact hperm
  case next_le => exact h.next_le
  case bounded => exact List.length_erase_le.trans h.bounded
  case busy =>
    intro hnone
    cases hrejected : w.rejected <;> simp [Workers.settle, hrejected] at hnone
  case length => exact h.length
  case results =>
    intro i hi
    refine (h.results i hi).trans ?_
    by_cases heq : i = index
    · subst heq
      simp [hresult]
    · simp [heq]
  case rejected =>
    show w.rejected.or (some e) = _
    rw [h.rejected, List.findSome?_append, List.findSome?_singleton, hfailure]

theorem results_set {result : ρ} (hanswer : calls[index]? = some (.ok result)) :
    ∀ i < w.size, (w.results.set index (some result))[i]? =
      some (if i ∈ settled ++ [index] then resultOf calls i else none) := by
  have hresult : resultOf calls index = some result := by rw [resultOf, hanswer]; rfl
  have hindex : index < w.results.length := by
    rw [h.length, h.size]
    exact (List.getElem?_eq_some_iff.1 hanswer).1
  intro i hi
  by_cases heq : i = index
  · subst heq
    rw [List.getElem?_set_self hindex, hresult]
    simp
  · rw [List.getElem?_set_ne (Ne.symm heq), h.results i hi]
    simp [heq]

theorem settle_ok {result : ρ} (hrunning : index ∈ w.running)
    (hanswer : calls[index]? = some (.ok result)) :
    (w.settle index (.ok result)).Sound calls limit (settled ++ [index]) := by
  have hperm := (perm_settle settled hrunning).trans h.perm
  have hfailure : failureOf calls index = none := by rw [failureOf, hanswer]; rfl
  have hrejected : w.rejected = (settled ++ [index]).findSome? (failureOf calls) := by
    rw [h.rejected, List.findSome?_append, List.findSome?_singleton, hfailure, Option.or_none]
  by_cases hnext : w.next < w.size
  · have hsettle : w.settle index (.ok result) = { w with
        next := w.next + 1
        running := w.running.erase index ++ [w.next]
        results := w.results.set index (some result) } := if_pos hnext
    rw [hsettle]
    constructor
    case size => exact h.size
    case perm =>
      show (w.running.erase index ++ [w.next] ++ (settled ++ [index])).Perm
        (List.range (w.next + 1))
      rw [List.range_succ, List.append_assoc]
      have hswap : ([w.next] ++ (settled ++ [index])).Perm (settled ++ [index] ++ [w.next]) :=
          List.perm_append_comm
      refine (hswap.append_left _).trans ?_
      rw [← List.append_assoc]
      exact hperm.append_right _
    case next_le => exact hnext
    case bounded =>
      show (w.running.erase index ++ [w.next]).length ≤ _
      rw [length_next hrunning]
      exact h.bounded
    case busy =>
      intro hnone _
      show (w.running.erase index ++ [w.next]).length = _
      rw [length_next hrunning]
      exact h.busy hnone hnext
    case length => exact List.length_set.trans h.length
    case results => exact h.results_set hanswer
    case rejected => exact hrejected
  · have hsettle : w.settle index (.ok result) = { w with
        running := w.running.erase index
        results := w.results.set index (some result) } := if_neg hnext
    rw [hsettle]
    constructor
    case size => exact h.size
    case perm => exact hperm
    case next_le => exact h.next_le
    case bounded => exact List.length_erase_le.trans h.bounded
    case busy => exact fun _ hlt => absurd hlt hnext
    case length => exact List.length_set.trans h.length
    case results => exact h.results_set hanswer
    case rejected => exact hrejected

theorem settle {answer : Except ε ρ} (hrunning : index ∈ w.running)
    (hanswer : calls[index]? = some answer) :
    (w.settle index answer).Sound calls limit (settled ++ [index]) := by
  cases answer with
  | error e => exact h.settle_error hrunning hanswer
  | ok result => exact h.settle_ok hrunning hanswer

end Workers.Sound

theorem Maps.sound (h : Maps calls limit settled w) : w.Sound calls limit settled := by
  induction h with
  | start => exact sound_mapWithLimit
  | settle _ hrunning hanswer ih => exact ih.settle hrunning hanswer

/-! ## What comes of the calls -/

theorem eq_map_ok {calls : List (Except ε ρ)} (h : ∀ call ∈ calls, failure call = none) :
    ∃ values : List ρ, calls = values.map Except.ok := by
  induction calls with
  | nil => exact ⟨[], rfl⟩
  | cons call calls ih =>
    obtain ⟨values, hvalues⟩ := ih fun call hcall => h call (List.mem_cons_of_mem _ hcall)
    cases call with
    | error e => cases h _ List.mem_cons_self
    | ok value => exact ⟨value :: values, by rw [hvalues]; rfl⟩

theorem failureOf_map_ok (values : List ρ) (index : Nat) :
    failureOf (values.map Except.ok : List (Except ε ρ)) index = none := by
  rw [failureOf, List.getElem?_map]
  cases values[index]? <;> rfl

theorem resultOf_map_ok (values : List ρ) (index : Nat) :
    resultOf (values.map Except.ok : List (Except ε ρ)) index = values[index]? := by
  rw [resultOf, List.getElem?_map]
  cases values[index]? <;> rfl

theorem outcome_ok_iff {results : List (Option ρ)} :
    w.outcome = some (.ok results) ↔ w.rejected = none ∧ w.running = [] ∧ w.results = results := by
  unfold Workers.outcome
  cases w.rejected with
  | some e => simp
  | none => simp

theorem outcome_error_iff {e : ε} : w.outcome = some (.error e) ↔ w.rejected = some e := by
  unfold Workers.outcome
  cases w.rejected with
  | some e => simp
  | none => simp

namespace Workers.Sound

variable (h : w.Sound calls limit settled)
include h

theorem length_settled : w.running.length + settled.length = w.next := by
  rw [← List.length_append, h.perm.length_eq, List.length_range]

theorem next_le_length : w.next ≤ calls.length := h.size ▸ h.next_le

/-- When no worker is left and none has failed, no item is left. -/
theorem next_eq (hlimit : 0 < limit) (hrejected : w.rejected = none) (hrunning : w.running = []) :
    w.next = calls.length := by
  by_contra hne
  have hle := h.next_le_length
  have hlt : w.next < w.size := by
    rw [h.size]
    omega
  have hbusy := h.busy hrejected hlt
  rw [hrunning, List.length_nil] at hbusy
  omega

theorem mem_settled (hrunning : w.running = []) (hnext : w.next = calls.length) {i : Nat}
    (hi : i < calls.length) : i ∈ settled := by
  have hperm := h.perm
  rw [hrunning, hnext, List.nil_append] at hperm
  exact hperm.mem_iff.2 (List.mem_range.2 hi)

/-- No call has failed when all have come to an end and nothing is rejected. -/
theorem succeeded (hrejected : w.rejected = none) (hall : ∀ i < calls.length, i ∈ settled) :
    ∃ values : List ρ, calls = values.map Except.ok := by
  refine eq_map_ok fun call hcall => ?_
  obtain ⟨i, hi, rfl⟩ := List.mem_iff_getElem.1 hcall
  have hnone := List.findSome?_eq_none_iff.1 (h.rejected ▸ hrejected) i (hall i hi)
  rwa [failureOf, List.getElem?_eq_getElem hi, Option.bind_some] at hnone

theorem results_eq {values : List ρ} (hcalls : calls = values.map Except.ok)
    (hall : ∀ i < calls.length, i ∈ settled) : w.results = values.map some := by
  have hsize : w.size = values.length := by rw [h.size, hcalls, List.length_map]
  refine List.ext_getElem? fun i => ?_
  by_cases hi : i < w.size
  · rw [h.results i hi, if_pos (hall i (h.size ▸ hi)), hcalls, resultOf_map_ok, List.getElem?_map,
      List.getElem?_eq_getElem (hsize ▸ hi), Option.map_some]
  · have hlength := h.length
    rw [List.getElem?_eq_none (by omega), List.getElem?_eq_none (by rw [List.length_map]; omega)]

theorem not_rejected {values : List ρ} (hcalls : calls = values.map Except.ok) :
    w.rejected = none := by
  rw [h.rejected, List.findSome?_eq_none_iff, hcalls]
  exact fun i _ => failureOf_map_ok values i

end Workers.Sound

theorem Maps.bounded (h : Maps calls limit settled w) : w.running.length ≤ limit :=
  h.sound.bounded.trans (Nat.min_le_left _ _)

/-- The results are there when all calls have come to an end, and none in vain. -/
theorem Maps.succeeds_iff (h : Maps calls limit settled w) (hlimit : 0 < limit)
    (results : List (Option ρ)) : w.outcome = some (.ok results) ↔
      settled.length = calls.length ∧ ∃ values : List ρ, calls = values.map Except.ok ∧
        results = values.map some := by
  have hsound := h.sound
  have hlength := hsound.length_settled
  have hle := hsound.next_le_length
  rw [outcome_ok_iff]
  constructor
  · rintro ⟨hrejected, hrunning, rfl⟩
    have hnext := hsound.next_eq hlimit hrejected hrunning
    have hall := fun i hi => hsound.mem_settled hrunning hnext (i := i) hi
    obtain ⟨values, hvalues⟩ := hsound.succeeded hrejected hall
    rw [hrunning, List.length_nil] at hlength
    exact ⟨by omega, values, hvalues, hsound.results_eq hvalues hall⟩
  · rintro ⟨hsettled, values, hvalues, rfl⟩
    have hrunning : w.running = [] := List.length_eq_zero_iff.1 (by omega)
    have hall := fun i hi => hsound.mem_settled hrunning (by omega) (i := i) hi
    exact ⟨hsound.not_rejected hvalues, hrunning, hsound.results_eq hvalues hall⟩

theorem running_of_outcome_none (h : w.outcome = none) : w.running ≠ [] := by
  intro hrunning
  unfold Workers.outcome at h
  cases hrejected : w.rejected with
  | some e => simp [hrejected] at h
  | none => simp [hrejected, hrunning] at h

/-- Whatever the order in which the calls come to an end: there are never more of them than the
limit; each item is worked on once, and before those behind it; until something has come of it, a
call is under way.  If all calls give results, these come of it, in the order of the items;
otherwise the failure that comes first. -/
theorem mapWithLimit_correct (hlimit : 0 < limit) (h : Maps calls limit settled w) :
    w.running.length ≤ limit ∧ (w.running ++ settled).Perm (List.range w.next) ∧
      w.next ≤ calls.length ∧
      (w.outcome = none → w.running ≠ []) ∧
      (∀ results, w.outcome = some (.ok results) ↔
        settled.length = calls.length ∧ ∃ values : List ρ, calls = values.map Except.ok ∧
          results = values.map some) ∧
      ∀ e, w.outcome = some (.error e) ↔ settled.findSome? (failureOf calls) = some e := by
  refine ⟨h.bounded, h.sound.perm, h.sound.next_le_length, running_of_outcome_none,
    h.succeeds_iff hlimit, fun e => ?_⟩
  rw [outcome_error_iff, h.sound.rejected]

theorem mapWithLimit_correct_three : ∃ w : Workers Nat String,
    Maps [.ok 7, .ok 8, .ok 9] 2 [1, 0, 2] w ∧ w.outcome = some (.ok [some 7, some 8, some 9]) := by
  have hmaps : Maps ([.ok 7, .ok 8, .ok 9] : List (Except String Nat)) 2 [1, 0, 2] _ :=
    .settle (.settle (.settle .start (by decide) rfl) (by decide) rfl) (by decide) rfl
  obtain ⟨-, -, -, -, hok, -⟩ := mapWithLimit_correct (by decide) hmaps
  exact ⟨_, hmaps, (hok _).2 ⟨rfl, [7, 8, 9], rfl, rfl⟩⟩

/-! ## The route -/

theorem map_withCounts (readCounts : String → Except ε κ) (tenants : List TenantSummary) :
    tenants.map (withCounts readCounts) =
      (tenants.map fun tenant => (tenant, countsOf readCounts tenant)).map Except.ok := by
  rw [List.map_map]
  rfl

/-- Counts that cannot be read do not fail the list: it has every tenant in its place, and never are
the counts of more than five tenants read at a time. -/
theorem tenants_counted (readCounts : String → Except ε κ) (tenants : List TenantSummary)
    {w : Workers (TenantSummary × Option κ) ε}
    (h : Maps (tenants.map (withCounts readCounts)) countConcurrency settled w) :
    w.running.length ≤ countConcurrency ∧ (w.outcome = none ↔ settled.length < tenants.length) ∧
      ∀ outcome ∈ w.outcome,
        outcome = .ok (tenants.map fun tenant => some (tenant, countsOf readCounts tenant)) := by
  have hcalls := map_withCounts readCounts tenants
  have hrejected := h.sound.not_rejected hcalls
  have hsettled : settled.length ≤ tenants.length := by
    have hlength := h.sound.length_settled
    have hle := h.sound.next_le_length
    rw [List.length_map] at hle
    omega
  have hok : w.outcome = some (.ok
      (tenants.map fun tenant => some (tenant, countsOf readCounts tenant))) ↔
      settled.length = tenants.length := by
    rw [h.succeeds_iff (by decide), List.length_map]
    exact and_iff_left ⟨_, hcalls, by rw [List.map_map]; rfl⟩
  have hshown : ∀ outcome ∈ w.outcome,
      outcome = .ok (tenants.map fun tenant => some (tenant, countsOf readCounts tenant)) := by
    intro outcome houtcome
    cases outcome with
    | error e =>
      rw [Option.mem_def, outcome_error_iff, hrejected] at houtcome
      cases houtcome
    | ok results =>
      have hdone := ((h.succeeds_iff (by decide) results).1 houtcome).1
      rw [List.length_map] at hdone
      exact Option.some.inj (houtcome.symm.trans (hok.2 hdone))
  refine ⟨h.bounded, ?_, hshown⟩
  constructor
  · intro hnone
    refine lt_of_le_of_ne hsettled fun hdone => ?_
    rw [hok.2 hdone] at hnone
    cases hnone
  · intro hlt
    cases houtcome : w.outcome with
    | none => rfl
    | some outcome =>
      have hdone := hok.1 (houtcome.trans (congrArg some (hshown outcome houtcome)))
      omega

def twoTenants : List TenantSummary :=
  [{ id := "acme", name := "Acme", status := .active, createdAt := 0, serial := 0
     activeKeyCount := 1 },
    { id := "beta", name := "Beta", status := .active, createdAt := 1, serial := 1
      activeKeyCount := 0 }]

/-- The schema of Beta cannot be read. -/
def readAcme (tenantId : String) : Except String Nat :=
  if tenantId = "acme" then .ok 3 else .error "connection lost"

/-- The reading for Beta comes to its end first. -/
theorem tenants_counted_two : ∃ w : Workers (TenantSummary × Option Nat) String,
    Maps (twoTenants.map (withCounts readAcme)) countConcurrency [1, 0] w ∧
      w.outcome.map (·.map fun shown => shown.map fun entry =>
        entry.map fun (tenant, counts) => (tenant.id, counts)) =
          some (.ok [some ("acme", some 3), some ("beta", none)]) := by
  have hmaps : Maps (twoTenants.map (withCounts readAcme)) countConcurrency [1, 0] _ :=
    .settle (.settle .start (by decide) rfl) (by decide) rfl
  obtain ⟨-, hnone, hshown⟩ := tenants_counted _ twoTenants hmaps
  refine ⟨_, hmaps, ?_⟩
  obtain ⟨outcome, houtcome⟩ := Option.ne_none_iff_exists'.1 fun h => absurd (hnone.1 h) (by decide)
  rw [houtcome, hshown outcome houtcome]
  rfl

end NexusWorkflow.Tenancy
