import NexusWorkflow.Model.Tenants

/-!
# Deleting a tenant

A request looks for its tenant first; its later statements know the tenant by its id only.  What is
kept through a run is that nothing a request may still destroy belongs to a tenant which it has not
seen.
-/

namespace NexusWorkflow.Tenancy

variable {s s' : Registry} {id : String} {n : Nat}

/-! ## What an operation does to the rows -/

/-- Each tenant was there before, and is still being deleted if it was, or it has been created
since. -/
structure Follows (s s' : Registry) : Prop where
  creations : s.creations ≤ s'.creations
  tenants : ∀ id t', s'.tenants.get? id = some t' →
    (∃ t, s.tenants.get? id = some t ∧ t'.serial = t.serial ∧
      (t.status = .deleting → t'.status = .deleting)) ∨
      s.creations ≤ t'.serial

theorem Follows.of_eq (htenants : s'.tenants = s.tenants)
    (hcreations : s'.creations = s.creations) : Follows s s' :=
  ⟨Nat.le_of_eq hcreations.symm, fun _ t' ht' => .inl ⟨t', htenants ▸ ht', rfl, fun h => h⟩⟩

theorem Follows.refl (s : Registry) : Follows s s := .of_eq rfl rfl

theorem Follows.trans {s₁ s₂ s₃ : Registry} (h : Follows s₁ s₂) (h' : Follows s₂ s₃) :
    Follows s₁ s₃ := by
  refine ⟨Nat.le_trans h.creations h'.creations, fun id t₃ ht₃ => ?_⟩
  rcases h'.tenants id t₃ ht₃ with ⟨t₂, ht₂, hserial, hdeleting⟩ | hnew
  · rcases h.tenants id t₂ ht₂ with ⟨t₁, ht₁, hserial₁, hdeleting₁⟩ | hnew
    · exact .inl ⟨t₁, ht₁, hserial.trans hserial₁, fun hd => hdeleting (hdeleting₁ hd)⟩
    · exact .inr (hserial ▸ hnew)
  · exact .inr (Nat.le_trans h.creations hnew)

theorem Registry.serial_lt {t : Tenant} (h : s.tenants.get? id = some t) : t.serial < s.creations :=
  s.numbered t (KeyedMap.mem_of_get? h)

theorem follows_createTenant {name : String} : Follows s (s.createTenant id name).1 := by
  unfold Registry.createTenant
  split_ifs with h
  · exact .refl s
  · refine ⟨Nat.le_succ _, fun id' t' ht' => ?_⟩
    have ht' : (s.tenants.set _).get? id' = some t' := ht'
    rw [KeyedMap.get?_set] at ht'
    split_ifs at ht' with hid
    · cases ht'
      exact .inr (Nat.le_refl _)
    · exact .inl ⟨t', ht', rfl, fun h => h⟩

theorem follows_setTenant (t t' : Tenant) (ht : s.tenants.get? t.id = some t)
    (hserial : t'.serial = t.serial) (hid : t'.id = t.id)
    (hstatus : t.status = .deleting → t'.status = .deleting) :
    Follows s (s.setTenant t t' ht hserial) := by
  refine ⟨Nat.le_refl _, fun id x hx => ?_⟩
  have hx : (s.tenants.set t').get? id = some x := hx
  rw [KeyedMap.get?_set] at hx
  split_ifs at hx with hk
  · cases hx
    exact .inl ⟨t, by rw [← hk, hid, ht], hserial, hstatus⟩
  · exact .inl ⟨x, hx, rfl, fun h => h⟩

theorem follows_updateTenant {changes : TenantChanges} :
    Follows s (s.updateTenant id changes).1 := by
  unfold Registry.updateTenant
  split
  · exact .refl s
  · next t ht =>
    split_ifs with hdeleting
    · exact .refl s
    · dsimp only
      exact follows_setTenant t _ _ _ rfl fun h => absurd h hdeleting

theorem follows_markTenantDeleting : Follows s (s.markTenantDeleting id).1 := by
  unfold Registry.markTenantDeleting
  split
  · exact .refl s
  · next t ht =>
    dsimp only
    exact follows_setTenant t _ _ _ rfl fun _ => rfl

theorem follows_eraseTenant : Follows s (s.eraseTenant id) := by
  refine ⟨Nat.le_refl _, fun id' t' ht' => .inl ⟨t', ?_, rfl, fun h => h⟩⟩
  have ht' : (s.tenants.erase id).get? id' = some t' := ht'
  have hne : id ≠ id' := by
    rintro rfl
    exact absurd (ht'.symm.trans (KeyedMap.get?_erase_self s.tenants id)) (by simp)
  rwa [KeyedMap.get?_erase_of_ne _ hne] at ht'

theorem follows_lose {parts : List Part} : Follows s (s.lose parts id n) := .of_eq rfl rfl

theorem follows_exec (op : TenantOp) : Follows s (s.exec op).1 := by
  cases op with
  | createTenant id name => exact follows_createTenant
  | updateTenant id changes => exact follows_updateTenant
  | markTenantDeleting id => exact follows_markTenantDeleting
  | deleteTenantAndKeys id n => exact follows_lose.trans follows_eraseTenant
  | deleteTenant id n =>
    show Follows s (s.deleteTenant id n).1
    unfold Registry.deleteTenant
    split_ifs
    · exact .refl s
    · exact follows_lose.trans follows_eraseTenant
  | createApiKey key =>
    show Follows s (s.createApiKey key).1
    unfold Registry.createApiKey
    dsimp only
    split_ifs <;> exact .of_eq rfl rfl
  | migrate id migration =>
    show Follows s (s.migrate id migration).1
    unfold Registry.migrate
    dsimp only
    split_ifs
    · exact .of_eq rfl rfl
    · split <;> exact .of_eq rfl rfl
  | dropSchema id n =>
    show Follows s (s.dropSchema id n)
    unfold Registry.dropSchema
    split_ifs <;> exact .of_eq rfl rfl
  | getTenant id => exact .refl s
  | insertAudit entry => exact .of_eq rfl rfl
  | deactivating id => exact .refl s

theorem follows_outcomes {op : TenantOp} {a : Except DbError op.Answer}
    (h : (s', a) ∈ s.outcomes op) : Follows s s' := by
  simp only [Registry.outcomes, List.mem_cons, List.not_mem_nil, or_false] at h
  rcases h with h | h | h
  · obtain rfl : s' = (s.exec op).1 := congrArg Prod.fst h
    exact follows_exec op
  · cases h
    exact .refl s
  · obtain rfl : s' = (s.exec op).1 := congrArg Prod.fst h
    exact follows_exec op

theorem follows_wait (s : Registry) (ms : Nat) : Follows s (s.wait ms) := .of_eq rfl rfl

/-! ## What a request may destroy -/

/-- The tenant that the operation destroys, and how many had been created when the request looked
for it. -/
def TenantOp.target : TenantOp → Option (String × Nat)
  | dropSchema id n | deleteTenantAndKeys id n | deleteTenant id n => some (id, n)
  | _ => none

/-- The operation tells whether the tenant is there. -/
def TenantOp.looks : TenantOp → Bool
  | createTenant _ _ | getTenant _ => true
  | _ => false

/-- The request may come to destroy the tenant without looking for it again. -/
inductive Aims (id : String) (n : Nat) : TenantProcess → Prop
  | now {op : TenantOp} {next : Except DbError op.Answer → TenantProcess}
      (h : op.target = some (id, n)) : Aims id n (.call op next)
  | later {op : TenantOp} {next : Except DbError op.Answer → TenantProcess}
      {a : Except DbError op.Answer} (hlooks : op.looks = false) (h : Aims id n (next a)) :
      Aims id n (.call op next)

/-- A tenant is created only when no request under way may destroy the tenant with its id without
looking for it again. -/
def Undisturbed (w w' : Registration) : Prop :=
  ∀ id t, w'.state.tenants.get? id = some t → w.state.creations ≤ t.serial →
    ∀ p ∈ w.processes, ∀ n, ¬ Aims id n p

theorem mem_losses_lose {parts : List Part} {loss : Loss} (h : loss ∈ (s.lose parts id n).losses) :
    loss ∈ s.losses ∨ s.tenants.get? id = some loss.tenant ∧ loss.creations = n := by
  rcases List.mem_append.1 h with h | h
  · exact .inl h
  · obtain ⟨t, ht, h⟩ := List.mem_flatMap.1 h
    obtain ⟨part, -, rfl⟩ := List.mem_map.1 h
    exact .inr ⟨Option.mem_toList.1 ht, rfl⟩

theorem mem_losses_exec {op : TenantOp} {loss : Loss} (h : loss ∈ (s.exec op).1.losses) :
    loss ∈ s.losses ∨ ∃ id, op.target = some (id, loss.creations) ∧
      s.tenants.get? id = some loss.tenant := by
  have hlose : ∀ {parts : List Part} {id : String} {n : Nat}, op.target = some (id, n) →
      loss ∈ (s.lose parts id n).losses →
        loss ∈ s.losses ∨ ∃ id, op.target = some (id, loss.creations) ∧
          s.tenants.get? id = some loss.tenant := by
    intro parts id n htarget h
    rcases mem_losses_lose h with h | ⟨ht, rfl⟩
    · exact .inl h
    · exact .inr ⟨id, htarget, ht⟩
  cases op with
  | deleteTenantAndKeys id n => exact hlose rfl h
  | deleteTenant id n =>
    replace h : loss ∈ (s.deleteTenant id n).1.losses := h
    unfold Registry.deleteTenant at h
    split_ifs at h
    · exact .inl h
    · exact hlose rfl h
  | dropSchema id n =>
    replace h : loss ∈ (s.dropSchema id n).losses := h
    unfold Registry.dropSchema at h
    split_ifs at h
    · exact hlose rfl h
    · exact .inl h
  | createTenant id name =>
    replace h : loss ∈ (s.createTenant id name).1.losses := h
    unfold Registry.createTenant at h
    split_ifs at h <;> exact .inl h
  | updateTenant id changes =>
    replace h : loss ∈ (s.updateTenant id changes).1.losses := h
    unfold Registry.updateTenant at h
    split at h
    · exact .inl h
    · split_ifs at h <;> exact .inl h
  | markTenantDeleting id =>
    replace h : loss ∈ (s.markTenantDeleting id).1.losses := h
    unfold Registry.markTenantDeleting at h
    split at h <;> exact .inl h
  | createApiKey key =>
    replace h : loss ∈ (s.createApiKey key).1.losses := h
    unfold Registry.createApiKey at h
    dsimp only at h
    split_ifs at h <;> exact .inl h
  | migrate id migration =>
    replace h : loss ∈ (s.migrate id migration).1.losses := h
    unfold Registry.migrate at h
    dsimp only at h
    split_ifs at h
    · exact .inl h
    · split at h <;> exact .inl h
  | getTenant _ | insertAudit _ | deactivating _ => exact .inl h

theorem mem_losses_outcomes {op : TenantOp} {a : Except DbError op.Answer}
    (h : (s', a) ∈ s.outcomes op) {loss : Loss} (hloss : loss ∈ s'.losses) :
    loss ∈ s.losses ∨ ∃ id, op.target = some (id, loss.creations) ∧
      s.tenants.get? id = some loss.tenant := by
  simp only [Registry.outcomes, List.mem_cons, List.not_mem_nil, or_false] at h
  rcases h with h | h | h
  · exact mem_losses_exec (congrArg Prod.fst h ▸ hloss)
  · cases h
    exact .inl hloss
  · exact mem_losses_exec (congrArg Prod.fst h ▸ hloss)

/-! ## Requests -/

/-- What the request may destroy is older than its look at it. -/
def Registry.Clears (s : Registry) (p : TenantProcess) : Prop :=
  ∀ id n, Aims id n p → ∀ t, s.tenants.get? id = some t → t.serial < n

/-- Whenever the request looks for its tenant, it has seen what it may destroy next. -/
def Sound : TenantProcess → Prop
  | .done _ => True
  | .call op next =>
      (op.looks = true → ∀ (s s' : Registry) a, (s', a) ∈ s.outcomes op → s'.Clears (next a)) ∧
        ∀ a, Sound (next a)

theorem not_aims_of_looks {op : TenantOp} {next : Except DbError op.Answer → TenantProcess}
    (h : op.looks = true) : ¬ Aims id n (.call op next) := by
  rintro (htarget | ⟨hlooks, -⟩)
  · cases op <;> simp [TenantOp.looks, TenantOp.target] at h htarget
  · rw [h] at hlooks
    cases hlooks

/-- What the request aims at is the target of one of its operations. -/
theorem Aims.exists_call {Q : TenantOp → Prop} {p : TenantProcess} (h : Aims id n p)
    (hp : p.onlyCalls Q) : ∃ op, Q op ∧ op.target = some (id, n) := by
  induction h with
  | now htarget => exact ⟨_, hp.1, htarget⟩
  | later _ _ ih => exact ih (hp.2 _)

/-- It destroys nothing. -/
def TenantOp.Harmless (op : TenantOp) : Prop := op.target = none

/-- It does not look for a tenant, and destroys this one at most. -/
def TenantOp.StaysWith (id : String) (n : Nat) (op : TenantOp) : Prop :=
  op.looks = false ∧ ∀ target, op.target = some target → target = (id, n)

theorem not_aims_of_harmless {p : TenantProcess} (hp : p.onlyCalls TenantOp.Harmless) :
    ¬ Aims id n p := by
  intro h
  obtain ⟨op, hop, htarget⟩ := h.exists_call hp
  rw [hop] at htarget
  cases htarget

theorem sound_of_harmless {p : TenantProcess} (hp : p.onlyCalls TenantOp.Harmless) : Sound p := by
  induction p with
  | done r => trivial
  | call op next ih =>
    exact ⟨fun _ s s' a _ id n h => absurd h (not_aims_of_harmless (hp.2 a)), fun a =>
      ih a (hp.2 a)⟩

theorem sound_of_staysWith {p : TenantProcess} (hp : p.onlyCalls (TenantOp.StaysWith id n)) :
    Sound p := by
  induction p with
  | done r => trivial
  | call op next ih =>
    exact ⟨fun hlooks => absurd (hlooks.symm.trans hp.1.1) (by simp), fun a => ih a (hp.2 a)⟩

theorem clears_of_staysWith {p : TenantProcess} (hp : p.onlyCalls (TenantOp.StaysWith id n))
    (hs : ∀ t, s.tenants.get? id = some t → t.serial < n) : s.Clears p := by
  intro id' n' h
  obtain ⟨op, hop, htarget⟩ := h.exists_call hp
  cases hop.2 _ htarget
  exact hs

theorem onlyCalls_record {Q : TenantOp → Prop} {entry : AuditInput} (h : Q (.insertAudit entry)) :
    (record entry).onlyCalls Q :=
  Async.onlyCalls_tryCatch (Async.onlyCalls_await h) fun _ => Async.onlyCalls_pure

theorem onlyCalls_provisionTenantSchema {Q : TenantOp → Prop}
    (h : ∀ migration, Q (.migrate id migration)) : (provisionTenantSchema id).onlyCalls Q := by
  unfold provisionTenantSchema
  split_ifs
  · refine Async.onlyCalls_bind (Async.onlyCalls_await (h _)) fun _ => ?_
    exact Async.onlyCalls_bind (Async.onlyCalls_await (h _)) fun _ => Async.onlyCalls_pure
  · exact Async.onlyCalls_throw

theorem onlyCalls_dropTenantSchema {Q : TenantOp → Prop} (h : Q (.dropSchema id n)) :
    (dropTenantSchema id n).onlyCalls Q := by
  unfold dropTenantSchema
  split_ifs
  · exact Async.onlyCalls_await h
  · exact Async.onlyCalls_throw

theorem onlyCalls_provisionTenant {principal : Option People.Principal} {created : Seen Tenant} :
    (provisionTenant principal id created).onlyCalls (TenantOp.StaysWith id created.creations) := by
  have hstays : ∀ {op : TenantOp}, op.looks = false → op.target = none →
      op.StaysWith id created.creations := by
    intro op hlooks htarget
    exact ⟨hlooks, fun target h => absurd (htarget.symm.trans h) (by simp)⟩
  refine Async.onlyCalls_bind (Async.onlyCalls_tryCatch ?_ fun _ => ?_) fun provisioned => ?_
  · exact Async.onlyCalls_bind (onlyCalls_provisionTenantSchema fun _ => hstays rfl rfl)
      fun _ => Async.onlyCalls_pure
  · refine Async.onlyCalls_bind
      (Async.onlyCalls_tryCatch (Async.onlyCalls_await ⟨rfl, ?_⟩) fun _ => ?_) fun _ => ?_
    · exact fun target h => (Option.some.inj h).symm
    · exact Async.onlyCalls_pure
    · exact Async.onlyCalls_pure
  · split_ifs
    · exact Async.onlyCalls_bind (onlyCalls_record (hstays rfl rfl)) fun _ => Async.onlyCalls_pure
    · exact Async.onlyCalls_pure

theorem onlyCalls_destroyTenant {principal : Option People.Principal} :
    (destroyTenant principal id n).onlyCalls (TenantOp.StaysWith id n) := by
  have hstays : ∀ {op : TenantOp}, op.looks = false →
      (∀ target, op.target = some target → target = (id, n)) →
      (await op : Task op.Answer).onlyCalls (TenantOp.StaysWith id n) :=
    fun hlooks htarget => Async.onlyCalls_await ⟨hlooks, htarget⟩
  refine Async.onlyCalls_bind (hstays rfl (by simp [TenantOp.target])) fun _ => ?_
  refine Async.onlyCalls_bind (Async.onlyCalls_tryCatch ?_ fun _ => Async.onlyCalls_pure)
    fun deleted => ?_
  · refine Async.onlyCalls_bind (hstays rfl (by simp [TenantOp.target])) fun _ => ?_
    refine Async.onlyCalls_bind (hstays rfl (by simp [TenantOp.target])) fun _ => ?_
    refine Async.onlyCalls_bind (onlyCalls_dropTenantSchema ⟨rfl, by simp [TenantOp.target]⟩)
      fun _ => ?_
    exact Async.onlyCalls_bind (hstays rfl (by simp [TenantOp.target])) fun _ =>
      Async.onlyCalls_pure
  · split_ifs
    · exact Async.onlyCalls_bind (onlyCalls_record ⟨rfl, by simp [TenantOp.target]⟩) fun _ =>
        Async.onlyCalls_pure
    · exact Async.onlyCalls_pure

theorem onlyCalls_patchTenant {principal : Option People.Principal} {body : Option Value} :
    (patchTenant principal id body).onlyCalls TenantOp.Harmless := by
  unfold patchTenant
  split
  · exact Async.onlyCalls_pure
  · refine Async.onlyCalls_bind (Async.onlyCalls_await rfl) fun updated => ?_
    split
    · refine Async.onlyCalls_bind (Async.onlyCalls_await rfl) fun found => ?_
      split_ifs <;> exact Async.onlyCalls_pure
    · refine Async.onlyCalls_bind ?_ fun _ => Async.onlyCalls_bind ?_ fun _ =>
        Async.onlyCalls_bind ?_ fun _ => Async.onlyCalls_pure
      · split_ifs
        · exact Async.onlyCalls_tryCatch (Async.onlyCalls_await rfl) fun _ => Async.onlyCalls_pure
        · exact Async.onlyCalls_pure
      · split
        · exact Async.onlyCalls_pure
        · exact onlyCalls_record rfl
      · split
        · exact Async.onlyCalls_pure
        · exact onlyCalls_record rfl

theorem onlyCalls_postKey {principal : Option People.Principal} {tenantId : String}
    {body : Option Value} {keyId keyHash : String} :
    (postKey principal tenantId body keyId keyHash).onlyCalls TenantOp.Harmless := by
  unfold postKey
  split
  · exact Async.onlyCalls_pure
  · split_ifs
    · exact Async.onlyCalls_pure
    · refine Async.onlyCalls_bind (Async.onlyCalls_await rfl) fun found => ?_
      split
      · exact Async.onlyCalls_pure
      · split_ifs
        · exact Async.onlyCalls_pure
        · exact Async.onlyCalls_map (Async.onlyCalls_await rfl)

/-- After a creation, the request stays with the tenant it has created. -/
theorem sound_createTenant {name : String} {next : Except DbError (Seen Tenant) → TenantProcess}
    (herror : ∀ e, (next (.error e)).onlyCalls TenantOp.Harmless)
    (hok : ∀ created, (next (.ok created)).onlyCalls (TenantOp.StaysWith id created.creations)) :
    Sound (.call (.createTenant id name) next) := by
  refine ⟨fun _ s s' a h => ?_, fun a => ?_⟩
  · cases a with
    | error e => exact fun id n haims => absurd haims (not_aims_of_harmless (herror e))
    | ok created =>
      have h : (s', Except.ok created) = s.createTenant id name := by
        simpa [Registry.outcomes, Registry.exec] using h
      have hcreations : created.creations = s'.creations := by
        unfold Registry.createTenant at h
        split_ifs at h
        · cases (Prod.mk.inj h).2
        · obtain ⟨rfl, hcreated⟩ := Prod.mk.inj h
          cases Except.ok.inj hcreated
          rfl
      exact clears_of_staysWith (hok created) fun t ht => hcreations ▸ Registry.serial_lt ht
  · cases a with
    | error e => exact sound_of_harmless (herror e)
    | ok created => exact sound_of_staysWith (hok created)

/-- After a look, the request stays with the tenant it has found. -/
theorem sound_getTenant {next : Except DbError (Seen (Option Tenant)) → TenantProcess}
    (herror : ∀ e, (next (.error e)).onlyCalls TenantOp.Harmless)
    (hok : ∀ found, (next (.ok found)).onlyCalls (TenantOp.StaysWith id found.creations)) :
    Sound (.call (.getTenant id) next) := by
  refine ⟨fun _ s s' a h => ?_, fun a => ?_⟩
  · cases a with
    | error e => exact fun id n haims => absurd haims (not_aims_of_harmless (herror e))
    | ok found =>
      obtain ⟨rfl, rfl⟩ : s' = s ∧ found = s.getTenant id := by
        simpa [Registry.outcomes, Registry.exec] using h
      exact clears_of_staysWith (hok _) fun t ht => Registry.serial_lt ht
  · cases a with
    | error e => exact sound_of_harmless (herror e)
    | ok found => exact sound_of_staysWith (hok found)

theorem sound_postTenant {principal : Option People.Principal} {body : Option Value} :
    Sound (postTenant principal body).run := by
  unfold postTenant
  split
  · trivial
  · refine sound_createTenant (fun e => ?_) fun created => onlyCalls_provisionTenant
    show Process.onlyCalls _ ((if e = .uniqueViolation then _ else _ : Task _) >>= _).run
    split_ifs <;> trivial

theorem sound_deleteTenant {principal : Option People.Principal} :
    Sound (deleteTenant principal id).run := by
  unfold deleteTenant
  split_ifs
  · trivial
  · refine sound_getTenant (fun e => trivial) fun found => ?_
    show Async.onlyCalls _ (if found.value.isNone then _ else _)
    split_ifs
    · exact Async.onlyCalls_pure
    · exact onlyCalls_destroyTenant

theorem sound_program (request : TenantRequest) : Sound request.program := by
  cases request with
  | postTenant principal body => exact sound_postTenant
  | patchTenant principal id body => exact sound_of_harmless onlyCalls_patchTenant
  | deleteTenant principal id => exact sound_deleteTenant
  | postKey principal tenantId body keyId keyHash => exact sound_of_harmless onlyCalls_postKey

/-- A request that has not looked for its tenant yet destroys nothing. -/
theorem not_aims_program (request : TenantRequest) : ¬ Aims id n request.program := by
  cases request with
  | postTenant principal body =>
    show ¬ Aims id n (postTenant principal body).run
    unfold postTenant
    split
    · rintro ⟨⟩
    · exact not_aims_of_looks rfl
  | patchTenant principal id body => exact not_aims_of_harmless onlyCalls_patchTenant
  | deleteTenant principal id =>
    show ¬ Aims _ n (deleteTenant principal id).run
    unfold deleteTenant
    split_ifs
    · rintro ⟨⟩
    · exact not_aims_of_looks rfl
  | postKey principal tenantId body keyId keyHash => exact not_aims_of_harmless onlyCalls_postKey

/-! ## Runs -/

/-- A run in which every step meets the condition. -/
abbrev Registration.LeadsBy (K : Registration → Registration → Prop) :
    Registration → Registration → Prop :=
  World.LeadsBy Registry.outcomes TenantRequest.program Registry.wait K

/-- Any run. -/
abbrev Registration.Leads : Registration → Registration → Prop :=
  World.Leads Registry.outcomes TenantRequest.program Registry.wait fun _ _ => True

/-- What the requests under way may destroy they have seen, and so it was with all that has been
destroyed. -/
structure Registration.Clear (w : Registration) : Prop where
  clears : ∀ p ∈ w.processes, w.state.Clears p
  sound : ∀ p ∈ w.processes, Sound p
  foreseen : ∀ loss ∈ w.state.losses, loss.Foreseen

/-- A tenant that was there before, or that is created undisturbed. -/
theorem Registry.Clears.step {w w' : Registration} (hfollows : Follows w.state w'.state)
    (hK : Undisturbed w w') {p : TenantProcess} (hp : p ∈ w.processes) (h : w.state.Clears p) :
    w'.state.Clears p := by
  intro id n haims t' ht'
  rcases hfollows.tenants id t' ht' with ⟨t, ht, hserial, -⟩ | hnew
  · exact hserial ▸ h id n haims t ht
  · exact absurd haims (hK id t' ht' hnew p hp n)

theorem Registration.Clear.step {w w' : Registration} (h : w.Clear)
    (hmove : World.Moves Registry.outcomes TenantRequest.program Registry.wait
    (fun _ _ => True) w w') (hK : Undisturbed w w') : w'.Clear := by
  cases hmove with
  | start request =>
    refine ⟨fun p hp => ?_, fun p hp => ?_, h.foreseen⟩
    · rcases List.mem_append.1 hp with hp | hp
      · exact h.clears p hp
      · rw [List.mem_singleton.1 hp]
        exact fun id n haims => absurd haims (not_aims_program request)
    · rcases List.mem_append.1 hp with hp | hp
      · exact h.sound p hp
      · rw [List.mem_singleton.1 hp]
        exact sound_program request
  | @call i op next s a hi hmem _ =>
    have hcaller : Process.call op next ∈ w.processes := List.mem_of_getElem? hi
    have hfollows : Follows w.state s := follows_outcomes hmem
    refine ⟨fun p hp => ?_, fun p hp => ?_, fun loss hloss => ?_⟩
    · rcases List.mem_or_eq_of_mem_set hp with hp | rfl
      · exact (h.clears p hp).step hfollows hK hp
      · cases hlooks : op.looks with
        | true => exact (h.sound _ hcaller).1 hlooks _ _ _ hmem
        | false =>
          have hall := (h.clears _ hcaller).step hfollows hK hcaller
          exact fun id n haims => hall id n (.later hlooks haims)
    · rcases List.mem_or_eq_of_mem_set hp with hp | rfl
      · exact h.sound p hp
      · exact (h.sound _ hcaller).2 a
    · rcases mem_losses_outcomes hmem hloss with hloss | ⟨id, htarget, ht⟩
      · exact h.foreseen loss hloss
      · exact h.clears _ hcaller id loss.creations (.now htarget) _ ht
  | tick ms => exact ⟨h.clears, h.sound, h.foreseen⟩

theorem follows_of_leads {w w' : Registration} (h : w.Leads w') : Follows w.state w'.state :=
  World.Leads.keeps (I := Follows w.state) h (.refl _)
    (fun _ _ _ _ hfollows _ hmem => hfollows.trans (follows_outcomes hmem))
    (fun s ms hfollows => hfollows.trans (follows_wait s ms))

/-- In every undisturbed run, what a request has destroyed was there when it looked for the tenant.
And in every run, a tenant that is being deleted stays so as long as it is there. -/
theorem deletes_only_that_tenant {s₀ : Registry} (h₀ : s₀.losses = []) {w : Registration}
    (hw : Registration.LeadsBy Undisturbed ⟨s₀, []⟩ w) :
    (∀ loss ∈ w.state.losses, loss.Foreseen) ∧
      ∀ v v' : Registration, v.Leads v' → ∀ id t t', v.state.tenants.get? id = some t →
        t.status = .deleting →
        v'.state.tenants.get? id = some t' → t'.serial = t.serial → t'.status = .deleting := by
  constructor
  · have hclear : w.Clear := by
      refine World.LeadsBy.keeps hw ⟨?_, ?_, ?_⟩ fun v v' h hmove hK => h.step hmove hK
      · exact fun p hp => absurd hp (List.not_mem_nil)
      · exact fun p hp => absurd hp (List.not_mem_nil)
      · exact fun loss hloss => absurd (h₀ ▸ hloss) (List.not_mem_nil)
    exact hclear.foreseen
  · intro v v' hv id t t' ht hdeleting ht' hserial
    rcases (follows_of_leads hv).tenants id t' ht' with ⟨t₁, ht₁, -, hstays⟩ | hnew
    · cases ht.symm.trans ht₁
      exact hstays hdeleting
    · have := Registry.serial_lt ht
      omega

/-- A registry with one tenant, which has a schema and a key. -/
def oneTenant : Registry where
  tenants :=
    .ofList [{ id := "north", name := "North", status := .active, createdAt := 0, serial := 0 }]
  apiKeys := .ofList
    [{ id := "key", tenantId := "north", name := "ci", role := .service, createdBy := none
       keyHash := "hash", createdAt := 0 }]
  schemas := .ofList
    [{ createTenantSchema { name := "tenant_north" } with
       applied := ["001_baseline", "002_instance_version"], versioned := true }]
  creations := 1
  numbered := by decide
  owned := by decide

/-- The request looks for its tenant next, or has come to its end. -/
def looksNext : TenantProcess → Bool
  | .done _ => true
  | .call op _ => op.looks

/-- No tenant is created in the step, or each request under way looks for its tenant next. -/
def Calm (w w' : Registration) : Prop :=
  w'.state.creations = w.state.creations ∨ ∀ p ∈ w.processes, looksNext p = true

instance (w w' : Registration) : Decidable (Calm w w') := inferInstanceAs (Decidable (_ ∨ _))

theorem Calm.undisturbed {w w' : Registration} (h : Calm w w') : Undisturbed w w' := by
  intro id t ht hnew p hp n haims
  rcases h with hsame | hlooks
  · have := Registry.serial_lt ht
    omega
  · cases p with
    | done r => cases haims
    | call op next => exact not_aims_of_looks (hlooks _ hp) haims

/-- Two requests to delete the tenant, both past their check; the first one goes on to its end. -/
def twoDeletions : List (World.Turn TenantRequest Nat) :=
  [.start (.deleteTenant none "north"), .start (.deleteTenant none "north"), .call 0 0,
    .call 1 0] ++
    List.replicate 6 (.call 0 0)

/-- The tenant is created anew, and the second request goes on as far as its schema. -/
def recreation : List (World.Turn TenantRequest Nat) :=
  [.start (.postTenant none
    (some (.object [("id", .string "north"), ("name", .string "New North")]))),
    .call 2 0, .call 2 0, .call 2 0] ++ List.replicate 4 (.call 1 0)

/-- Both deletions come to their ends; then the tenant is created anew, and deleted once more. -/
def secondLife : List (World.Turn TenantRequest Nat) :=
  twoDeletions ++ List.replicate 6 (.call 1 0) ++
    .start (.postTenant none
      (some (.object [("id", .string "north"), ("name", .string "New North")]))) ::
    List.replicate 4 (.call 2 0) ++
    .start (.deleteTenant none "north") :: List.replicate 7 (.call 3 0)

/-- The first deletion destroys the tenant, with its key and its schema; the last one destroys the
tenant that was created in between. -/
theorem deletes_only_that_tenant_twice : ∃ w : Registration,
    w.state.losses.map (fun loss => (loss.part, loss.tenant.serial)) =
        [(.schema, 0), (.keys, 0), (.row, 0), (.schema, 1), (.row, 1)] ∧
      ∀ loss ∈ w.state.losses, loss.Foreseen := by
  have hrun :
      ((⟨oneTenant, []⟩ : Registration).playsBy Registry.outcomes TenantRequest.program
        Registry.wait Calm secondLife).any
        (fun w => w.state.losses.map (fun loss => (loss.part, loss.tenant.serial)) =
          [(.schema, 0), (.keys, 0), (.row, 0), (.schema, 1), (.row, 1)]) = true := by
    decide +kernel
  obtain ⟨w, hplay, hparts⟩ := (Option.any_eq_true ..).1 hrun
  have hleads : Registration.LeadsBy Undisturbed ⟨oneTenant, []⟩ w :=
    .mono (fun _ _ => Calm.undisturbed) (.of_playsBy hplay)
  exact ⟨w, of_decide_eq_true hparts, (deletes_only_that_tenant rfl hleads).1⟩

/-- The second deletion drops the schema of the tenant that has been created since its check. -/
theorem not_deletes_only_that_tenant :
    ¬ ∀ (s₀ : Registry), s₀.losses = [] → ∀ w : Registration, Registration.Leads ⟨s₀, []⟩ w →
      ∀ loss ∈ w.state.losses, loss.Foreseen := by
  intro h
  have hrun :
      ((⟨oneTenant, []⟩ : Registration).plays Registry.outcomes TenantRequest.program Registry.wait
      (fun _ _ => True) (twoDeletions ++ recreation)).any
        (fun w => w.state.losses.any fun loss => decide ¬ loss.Foreseen) = true := by
    decide +kernel
  obtain ⟨w, hplay, hlost⟩ := (Option.any_eq_true ..).1 hrun
  obtain ⟨loss, hloss, hunforeseen⟩ := List.any_eq_true.1 hlost
  exact of_decide_eq_true hunforeseen (h oneTenant rfl w (.of_plays hplay) loss hloss)

end NexusWorkflow.Tenancy
