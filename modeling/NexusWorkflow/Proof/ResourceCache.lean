import NexusWorkflow.Lib.Indexed
import NexusWorkflow.Model.ResourceCache

/-!
# No resource is lost, and none is used when it is closed

`get` and `evict` take a resource out of the map before they close it; `endAll` closes it first.  In
every run in which no call comes upon a resource that `endAll` has closed and left in the map, `get`
returns open resources only, and every resource that leaves the map is closed once.
-/

namespace NexusWorkflow.ResourceCache

variable {c c' : TenantResourceCache}

/-! ## What is promised -/

def TenantResourceCache.Cached (c : TenantResourceCache) (resource : Nat) : Prop :=
  ∃ e ∈ c.entries, e.resource = resource

/-- How often `get` has been called since it returned the resource last. -/
def TenantResourceCache.unused (c : TenantResourceCache) (resource : Nat) : Nat :=
  c.uses.idxOf resource

structure Sound (c : TenantResourceCache) : Prop where
  size : c.entries.length ≤ c.maxSize
  served : c.stale = []
  closed : ∀ resource < c.created, (c.Cached resource ∨ resource ∈ c.ended) ∧
    c.ended.count resource ≤ 1
  room : ∀ tenantId, c.find? tenantId = none → c.maxSize ≤ c.entries.length →
    ∃ e ∈ c.entries, (c.get tenantId).ended = c.ended ++ [e.resource] ∧
      ∀ e' ∈ c.entries, e' ≠ e → c.unused e'.resource < c.unused e.resource

/-- The resource that the call takes from the map is not closed yet. -/
def Untouched (c : TenantResourceCache) : Happening → Prop
  | .get tenantId =>
    match c.find? tenantId with
    | some e => e.resource ∉ c.ended
    | none => c.maxSize ≤ c.entries.length → ∀ e ∈ c.entries.head?, e.resource ∉ c.ended
  | .evict tenantId => ∀ e ∈ c.find? tenantId, e.resource ∉ c.ended
  | .endAll => ∀ e ∈ c.iterate 0, e.resource ∉ c.ended
  | .closed k => ∀ slot ∈ (c.closings[k]?).join, ∀ e ∈ c.iterate slot, e.resource ∉ c.ended
  | .closingFailed _ => True

instance decidableUntouched (c : TenantResourceCache) : (h : Happening) → Decidable (Untouched c h)
  | .get tenantId => by
    unfold Untouched
    dsimp only
    split <;> infer_instance
  | .evict tenantId => inferInstanceAs (Decidable (∀ e ∈ c.find? tenantId, e.resource ∉ c.ended))
  | .endAll => inferInstanceAs (Decidable (∀ e ∈ c.iterate 0, e.resource ∉ c.ended))
  | .closed k =>
    inferInstanceAs (Decidable
      (∀ slot ∈ (c.closings[k]?).join, ∀ e ∈ c.iterate slot, e.resource ∉ c.ended))
  | .closingFailed _ => isTrue trivial

/-! ## The invariant -/

structure Kept (c : TenantResourceCache) : Prop where
  size : c.entries.length ≤ c.maxSize
  tenants : c.entries.Pairwise fun e e' => e.tenantId ≠ e'.tenantId
  slots : c.entries.Pairwise fun e e' => e.slot < e'.slot
  slot_lt : ∀ e ∈ c.entries, e.slot < c.nextSlot
  lt_created : ∀ e ∈ c.entries, e.resource < c.created
  recent : c.entries.Pairwise fun e e' => c.unused e'.resource < c.unused e.resource
  ended_lt : ∀ resource ∈ c.ended, resource < c.created
  once : c.ended.Nodup
  closed : ∀ resource < c.created, c.Cached resource ∨ resource ∈ c.ended
  passed : ∀ slot, some slot ∈ c.closings → slot ≤ c.nextSlot ∧ ∀ e ∈ c.entries, e.slot < slot →
    e.resource ∈ c.ended
  served : c.stale = []

namespace Kept

/-- Entries leave the map, and what leaves it is closed. -/
theorem shrink (h : Kept c) {entries : List Entry} {ended : List Nat}
    (hsub : entries.Sublist c.entries) (hended : ∀ resource ∈ c.ended, resource ∈ ended)
    (hlt : ∀ resource ∈ ended, resource < c.created)
    (honce : ended.Nodup) (hclosed : ∀ e ∈ c.entries, e ∈ entries ∨ e.resource ∈ ended) :
    Kept { c with entries, ended } := by
  refine ⟨Nat.le_trans hsub.length_le h.size, h.tenants.sublist hsub, h.slots.sublist hsub,
    fun e he => h.slot_lt e (hsub.subset he),
    fun e he => h.lt_created e (hsub.subset he), h.recent.sublist hsub, hlt, honce,
      fun resource hr => ?_,
    fun slot hs => ?_, h.served⟩
  · rcases h.closed resource hr with ⟨e, he, rfl⟩ | hmem
    · exact (hclosed e he).imp_left fun hmem => ⟨e, hmem, rfl⟩
    · exact .inr (hended resource hmem)
  · obtain ⟨hle, hpassed⟩ := h.passed slot hs
    exact ⟨hle, fun e he hlt => hended _ (hpassed e (hsub.subset he) hlt)⟩

/-- A resource is closed that is still in the map. -/
theorem endResource (h : Kept c) {e : Entry} (he : e ∈ c.entries) (hopen : e.resource ∉ c.ended) :
    Kept (c.endResource e.resource) := by
  refine h.shrink (List.Sublist.refl _) (fun _ => List.mem_append_left _)
    (fun resource hr => ?_) ?_ fun _ => .inl
  · rcases List.mem_append.1 hr with hr | hr
    · exact h.ended_lt resource hr
    · rw [List.mem_singleton.1 hr]
      exact h.lt_created e he
  · exact List.nodup_append.2 ⟨h.once, List.nodup_singleton _, fun a ha b hb heq =>
      hopen (List.mem_singleton.1 hb ▸ heq ▸ ha)⟩

/-- A resource is taken out of the map and closed. -/
theorem remove (h : Kept c) {e : Entry} (he : e ∈ c.entries) (hopen : e.resource ∉ c.ended)
    {entries : List Entry} (hsub : entries.Sublist c.entries)
    (hrest : ∀ e' ∈ c.entries, e' ∈ entries ∨ e' = e) :
    Kept ({ c with entries }.endResource e.resource) := by
  have hended := h.endResource he hopen
  refine hended.shrink hsub (fun _ => id) hended.ended_lt hended.once fun e' he' =>
    (hrest e' he').imp_right ?_
  rintro rfl
  exact List.mem_append_right _ (List.mem_singleton_self _)

/-- A resource is put at the end of the map and returned. -/
theorem put (h : Kept c) {entries : List Entry} {resource created : Nat} (tenantId : String)
    (hsub : entries.Sublist c.entries) (hroom : entries.length < c.maxSize)
    (htenant : ∀ e ∈ entries, e.tenantId ≠ tenantId) (hne : ∀ e ∈ entries, e.resource ≠ resource)
    (hopen : resource ∉ c.ended) (hcreated : c.created ≤ created) (hlt : resource < created)
    (hrest : ∀ e ∈ c.entries, e ∈ entries ∨ e.resource = resource)
    (hnew : ∀ r < created, r < c.created ∨ r = resource) :
    Kept (({ c with entries, created }.set tenantId resource).use resource) := by
  refine ⟨?_, ?_, ?_, fun e he => ?_, fun e he => ?_, ?_,
    fun r hr => Nat.lt_of_lt_of_le (h.ended_lt r hr) hcreated, h.once,
    fun r hr => ?_, fun slot hs => ?_, ?_⟩
  · change (entries ++ [_]).length ≤ c.maxSize
    rw [List.length_append, List.length_singleton]
    omega
  · refine List.pairwise_append.2
      ⟨h.tenants.sublist hsub, List.pairwise_singleton .., fun e he e' he' => ?_⟩
    rw [List.mem_singleton.1 he']
    exact htenant e he
  · refine List.pairwise_append.2
      ⟨h.slots.sublist hsub, List.pairwise_singleton .., fun e he e' he' => ?_⟩
    rw [List.mem_singleton.1 he']
    exact h.slot_lt e (hsub.subset he)
  · change e.slot < c.nextSlot + 1
    rcases List.mem_append.1 he with he | he
    · have := h.slot_lt e (hsub.subset he)
      omega
    · rw [List.mem_singleton.1 he]
      exact Nat.lt_succ_self _
  · rcases List.mem_append.1 he with he | he
    · exact Nat.lt_of_lt_of_le (h.lt_created e (hsub.subset he)) hcreated
    · rw [List.mem_singleton.1 he]
      exact hlt
  · -- every other resource has been unused for one call more
    have hunused : ∀ e ∈ entries, (resource :: c.uses).idxOf e.resource = c.unused e.resource + 1 :=
        fun e he =>
      List.idxOf_cons_ne _ (Ne.symm (hne e he))
    refine List.pairwise_append.2 ⟨?_, List.pairwise_singleton .., fun e he e' he' => ?_⟩
    · refine (h.recent.sublist hsub).imp_of_mem fun {e e'} he he' hlt' => ?_
      change (resource :: c.uses).idxOf e'.resource < (resource :: c.uses).idxOf e.resource
      rw [hunused e he, hunused e' he']
      omega
    · rw [List.mem_singleton.1 he']
      change (resource :: c.uses).idxOf resource < (resource :: c.uses).idxOf e.resource
      rw [hunused e he, List.idxOf_cons_self]
      omega
  · rcases hnew r hr with hr | rfl
    · rcases h.closed r hr with ⟨e, he, rfl⟩ | hmem
      · rcases hrest e he with he | heq
        · exact .inl ⟨e, List.mem_append_left _ he, rfl⟩
        · exact .inl ⟨_, List.mem_append_right _ (List.mem_singleton_self _), heq.symm⟩
      · exact .inr hmem
    · exact .inl ⟨_, List.mem_append_right _ (List.mem_singleton_self _), rfl⟩
  · obtain ⟨hle, hpassed⟩ := h.passed slot hs
    refine ⟨Nat.le_succ_of_le hle, fun e he hlt' => ?_⟩
    rcases List.mem_append.1 he with he | he
    · exact hpassed e (hsub.subset he) hlt'
    · rw [List.mem_singleton.1 he] at hlt'
      exact absurd hlt' (Nat.not_lt.2 hle)
  · change (if resource ∈ c.ended then resource :: c.stale else c.stale) = []
    rw [if_neg hopen]
    exact h.served

/-! ## Calls -/

theorem mem_of_find? {tenantId : String} {e : Entry} (h : c.find? tenantId = some e) :
    e ∈ c.entries ∧ e.tenantId = tenantId :=
  ⟨List.mem_of_find?_eq_some h, by simpa using List.find?_some h⟩

/-- `delete` takes the entry of the tenant, and no other. -/
theorem mem_delete_or (h : Kept c) {tenantId : String} {e : Entry}
    (hfind : c.find? tenantId = some e) :
    ∀ e' ∈ c.entries, e' ∈ (c.delete tenantId).entries ∨ e' = e := by
  intro e' he'
  obtain ⟨he, htenant⟩ := mem_of_find? hfind
  by_cases hsame : e'.tenantId = tenantId
  · exact .inr (Indexed.eq_of_pairwise h.tenants he' he (not_not_intro (hsame.trans htenant.symm))
      (not_not_intro (htenant.trans hsame.symm)))
  · exact .inl (List.mem_filter.2 ⟨he', by simpa using hsame⟩)

theorem evict (h : Kept c) {tenantId : String} (huntouched : Untouched c (.evict tenantId)) :
    Kept (c.evict tenantId) := by
  unfold TenantResourceCache.evict
  cases hfind : c.find? tenantId with
  | none => exact h
  | some e =>
    exact h.remove (mem_of_find? hfind).1 (huntouched e hfind) List.filter_sublist
      (h.mem_delete_or hfind)

theorem makeRoom (h : Kept c) (hmax : 1 ≤ c.maxSize)
    (hopen : c.maxSize ≤ c.entries.length → ∀ e ∈ c.entries.head?, e.resource ∉ c.ended) :
    Kept c.makeRoom ∧ c.makeRoom.entries.length < c.maxSize ∧
      c.makeRoom.entries.Sublist c.entries := by
  unfold TenantResourceCache.makeRoom
  split_ifs with hfull
  · have hsize := h.size
    split
    · rename_i hentries
      rw [hentries, List.length_nil] at hfull
      omega
    · rename_i oldest rest hentries
      have hrest : ∀ e' ∈ c.entries, e' ∈ rest ∨ e' = oldest := fun e' he' => by
        rw [hentries] at he'
        exact (List.mem_cons.1 he').symm
      have hsub : rest.Sublist c.entries := by
        rw [hentries]
        exact List.sublist_cons_self ..
      refine ⟨h.remove (by rw [hentries]; exact List.mem_cons_self)
        (hopen hfull oldest (by rw [hentries]; rfl)) hsub
        hrest, ?_, hsub⟩
      rw [hentries, List.length_cons] at hsize
      change rest.length < c.maxSize
      omega
  · exact ⟨h, Nat.not_le.1 hfull, List.Sublist.refl _⟩

theorem get (h : Kept c) (hmax : 1 ≤ c.maxSize) {tenantId : String}
    (huntouched : Untouched c (.get tenantId)) : Kept (c.get tenantId) := by
  unfold TenantResourceCache.get
  unfold Untouched at huntouched
  cases hfind : c.find? tenantId with
  | some e =>
    simp only [hfind] at huntouched
    obtain ⟨he, htenant⟩ := mem_of_find? hfind
    have hleaves : ∃ x ∈ c.entries, ¬ decide (x.tenantId ≠ tenantId) = true :=
        ⟨e, he, by simpa using htenant⟩
    have hroom : (c.delete tenantId).entries.length < c.maxSize :=
      Nat.lt_of_lt_of_le (List.length_filter_lt_length_iff_exists.2 hleaves) h.size
    have hrest : ∀ e' ∈ c.entries, e' ∈ (c.delete tenantId).entries ∨ e'.resource = e.resource :=
        fun e' he' =>
      (h.mem_delete_or hfind e' he').imp_right fun heq => by rw [heq]
    refine h.put tenantId List.filter_sublist hroom (fun e' he' => ?_)
      (fun e' he' hsame => ?_) huntouched (Nat.le_refl _)
      (h.lt_created e he) hrest fun r hr => .inl hr
    · simpa using (List.mem_filter.1 he').2
    · obtain ⟨hmem, hother⟩ := List.mem_filter.1 he'
      have heq : e' = e := Indexed.eq_of_pairwise h.recent hmem he
          (by rw [hsame]; exact Nat.lt_irrefl _)
        (by rw [hsame]; exact Nat.lt_irrefl _)
      rw [heq] at hother
      exact absurd htenant (by simpa using hother)
  | none =>
    simp only [hfind] at huntouched
    obtain ⟨hkept, hroom, hsub⟩ := h.makeRoom hmax huntouched
    have hcreated : c.makeRoom.created = c.created := by
      unfold TenantResourceCache.makeRoom
      split_ifs
      · split <;> rfl
      · rfl
    have hmaxSize : c.makeRoom.maxSize = c.maxSize := by
      unfold TenantResourceCache.makeRoom
      split_ifs
      · split <;> rfl
      · rfl
    refine hkept.put tenantId (List.Sublist.refl _) (hmaxSize ▸ hroom) (fun e he => ?_)
      (fun e he => ?_) (fun hmem => ?_)
      (hcreated ▸ Nat.le_succ _) (Nat.lt_succ_self _) (fun e he => .inl he) fun r hr => ?_
    · have hnone := List.find?_eq_none.1 hfind e (hsub.subset he)
      simpa using hnone
    · exact Nat.ne_of_lt (hcreated ▸ hkept.lt_created e he)
    · exact absurd (hcreated ▸ hkept.ended_lt _ hmem) (Nat.lt_irrefl _)
    · rw [hcreated]
      omega

/-- The calls of `endAll` go on from where everything before is closed. -/
theorem reclose (h : Kept c) {closings : List (Option Nat)}
    (hpassed : ∀ slot, some slot ∈ closings → slot ≤ c.nextSlot ∧ ∀ e ∈ c.entries, e.slot < slot →
    e.resource ∈ c.ended) :
    Kept { c with closings } :=
  ⟨h.size, h.tenants, h.slots, h.slot_lt, h.lt_created, h.recent, h.ended_lt, h.once, h.closed,
    hpassed, h.served⟩

theorem closeNext (h : Kept c) {slot : Nat}
    (hslot : ∀ e ∈ c.entries, e.slot < slot → e.resource ∈ c.ended)
    (hopen : ∀ e ∈ c.iterate slot, e.resource ∉ c.ended) :
    Kept (c.closeNext slot).1 ∧ ∀ slot' ∈ (c.closeNext slot).2,
      slot' ≤ (c.closeNext slot).1.nextSlot ∧
      ∀ e ∈ (c.closeNext slot).1.entries, e.slot < slot' →
        e.resource ∈ (c.closeNext slot).1.ended := by
  unfold TenantResourceCache.closeNext
  cases hnext : c.iterate slot with
  | none =>
    have hall : ∀ e ∈ c.entries, e.resource ∈ c.ended := fun e he =>
      hslot e he (by simpa using List.find?_eq_none.1 hnext e he)
    exact ⟨h.shrink (List.nil_sublist _) (fun _ => id) h.ended_lt h.once fun e he => .inr
      (hall e he), nofun⟩
  | some e =>
    obtain ⟨-, before, after, hentries, hbefore⟩ := List.find?_eq_some_iff_append.1 hnext
    have he : e ∈ c.entries := List.mem_of_find?_eq_some hnext
    refine ⟨h.endResource he (hopen e hnext), fun slot' hs => ?_⟩
    cases hs
    refine ⟨h.slot_lt e he, fun e' he' hlt => ?_⟩
    have hmem : e' ∈ before ∨ e' = e ∨ e' ∈ after := by
      have hmem : e' ∈ before ++ e :: after := hentries ▸ he'
      simpa using hmem
    rcases hmem with hmem | rfl | hmem
    · have hpassed : e'.slot < slot := by simpa using hbefore e' hmem
      exact List.mem_append_left _ (hslot e' he' hpassed)
    · exact List.mem_append_right _ (List.mem_singleton_self _)
    · have hsorted := (List.pairwise_cons.1 (List.pairwise_append.1 (hentries ▸ h.slots)).2.1).1 e'
        hmem
      omega

theorem closings_closeNext (slot : Nat) : (c.closeNext slot).1.closings = c.closings := by
  unfold TenantResourceCache.closeNext
  split <;> rfl

/-! ## Runs -/

theorem step (h : Kept c) (hmax : 1 ≤ c.maxSize) {happening : Happening}
    (huntouched : Untouched c happening) (hstep : c.step happening = some c') : Kept c' := by
  cases happening with
  | get tenantId =>
    cases hstep
    exact h.get hmax huntouched
  | evict tenantId =>
    cases hstep
    exact h.evict huntouched
  | endAll =>
    cases hstep
    obtain ⟨hkept, hnext⟩ := h.closeNext (fun e _ hlt => absurd hlt (Nat.not_lt_zero _)) huntouched
    refine hkept.reclose fun slot hs => ?_
    rcases List.mem_append.1 hs with hs | hs
    · exact hkept.passed slot (closings_closeNext (c := c) 0 ▸ hs)
    · exact hnext slot (List.mem_singleton.1 hs).symm
  | closed k =>
    unfold TenantResourceCache.step at hstep
    unfold Untouched at huntouched
    cases hk : c.closings[k]? with
    | none => simp [hk] at hstep
    | some closing =>
      cases closing with
      | none => simp [hk] at hstep
      | some slot =>
        simp only [hk] at hstep
        cases hstep
        obtain ⟨hkept, hnext⟩ := h.closeNext (h.passed slot (List.mem_of_getElem? hk)).2
          (huntouched slot (by rw [hk]; rfl))
        refine hkept.reclose fun slot' hs => ?_
        rcases List.mem_or_eq_of_mem_set hs with hs | hs
        · exact hkept.passed slot' (closings_closeNext (c := c) slot ▸ hs)
        · exact hnext slot' hs.symm
  | closingFailed k =>
    unfold TenantResourceCache.step at hstep
    cases hk : c.closings[k]? with
    | none => simp [hk] at hstep
    | some closing =>
      cases closing with
      | none => simp [hk] at hstep
      | some slot =>
        simp only [hk] at hstep
        cases hstep
        refine h.reclose fun slot' hs => ?_
        exact h.passed slot' ((List.mem_or_eq_of_mem_set hs).resolve_right nofun)

theorem sound (h : Kept c) (hmax : 1 ≤ c.maxSize) : Sound c := by
  refine ⟨h.size, h.served, fun r hr => ⟨h.closed r hr, List.nodup_iff_count_le_one.1 h.once r⟩,
    fun t hfind hfull => ?_⟩
  cases hentries : c.entries with
  | nil =>
    rw [hentries, List.length_nil] at hfull
    omega
  | cons oldest rest =>
    refine ⟨oldest, List.mem_cons_self, ?_, fun e' he' hne => ?_⟩
    · simp only [TenantResourceCache.get, hfind, TenantResourceCache.makeRoom, if_pos hfull]
      simp only [hentries, TenantResourceCache.use, TenantResourceCache.set,
        TenantResourceCache.endResource]
    · have hsorted := (List.pairwise_cons.1 (hentries ▸ h.recent)).1
      exact hsorted e' ((List.mem_cons.1 he').resolve_left hne)

end Kept

theorem kept_start (maxSize : Nat) : Kept { maxSize } :=
  ⟨Nat.zero_le _, .nil, .nil, nofun, nofun, .nil, nofun, .nil, nofun, nofun, rfl⟩

theorem maxSize_closeNext (slot : Nat) : (c.closeNext slot).1.maxSize = c.maxSize := by
  unfold TenantResourceCache.closeNext
  split <;> rfl

theorem maxSize_step {happening : Happening} (h : c.step happening = some c') :
    c'.maxSize = c.maxSize := by
  cases happening with
  | get tenantId =>
    cases h
    unfold TenantResourceCache.get TenantResourceCache.makeRoom
    split
    · rfl
    · split_ifs
      · split <;> rfl
      · rfl
  | evict tenantId =>
    cases h
    unfold TenantResourceCache.evict
    split <;> rfl
  | endAll =>
    cases h
    exact maxSize_closeNext 0
  | closed k =>
    simp only [TenantResourceCache.step] at h
    split at h
    · cases h
      exact maxSize_closeNext _
    · cases h
  | closingFailed k =>
    simp only [TenantResourceCache.step] at h
    split at h <;> cases h
    rfl

/-- In every run in which no call comes upon a resource that is closed and still in the map. -/
theorem cache_sound {maxSize : Nat} (hmax : 1 ≤ maxSize)
    (h : Machine.Reaches TenantResourceCache.step Untouched { maxSize } c) : Sound c := by
  have hkept : Kept c ∧ c.maxSize = maxSize := h.keeps (I := fun c => Kept c ∧ c.maxSize = maxSize)
    ⟨kept_start maxSize, rfl⟩ fun h hC hstep =>
      ⟨h.1.step (h.2 ▸ hmax) hC hstep, (maxSize_step hstep).trans h.2⟩
  exact hkept.1.sound (hkept.2 ▸ hmax)

/-- One resource is closed to make room, one is evicted, and the others are closed while one more is
created. -/
theorem cache_sound_run : ∃ c : TenantResourceCache, (c.ended = [1, 2, 0, 3] ∧ c.entries = []) ∧
    Sound c := by
  have hrun : (Machine.runs TenantResourceCache.step Untouched
      [.get "a", .get "b", .get "a", .get "c", .evict "c", .endAll, .get "b", .closed 0, .closed 0]
      { maxSize := 2 }).any (fun c => c.ended = [1, 2, 0, 3] ∧ c.entries = []) = true := by
    decide +kernel
  obtain ⟨c, hruns, hc⟩ := (Option.any_eq_true ..).1 hrun
  exact ⟨c, of_decide_eq_true hc, cache_sound (by decide) (.of_runs hruns)⟩

/-- `get` returns a resource that `endAll` is closing. -/
theorem not_cache_sound : ¬ ∀ (maxSize : Nat) (c : TenantResourceCache), 1 ≤ maxSize →
    Machine.Reaches TenantResourceCache.step (fun _ _ => True) { maxSize } c → Sound c := by
  intro h
  have hrun : (Machine.runs TenantResourceCache.step (fun _ _ => True) [.get "a", .endAll, .get "a"]
      { maxSize := 2 }).any (fun c => c.stale = [0]) = true := by
    decide +kernel
  obtain ⟨c, hruns, hc⟩ := (Option.any_eq_true ..).1 hrun
  have hstale : c.stale = [0] := of_decide_eq_true hc
  have hserved := (h 2 c (by decide) (.of_runs hruns)).served
  rw [hstale] at hserved
  cases hserved

end NexusWorkflow.ResourceCache
