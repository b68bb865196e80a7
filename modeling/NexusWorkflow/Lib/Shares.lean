import NexusWorkflow.Lib.KeyedMap

/-!
# Maps shared by owners

A map whose values have owners is made of the shares of its owners.  Filing or removing a value
changes the share of its owner as it would change a map of its own, and leaves the other shares
alone, as long as no key passes from one owner to another.
-/

namespace KeyedMap

variable {α κ ι : Type*} [DecidableEq κ] [DecidableEq ι] {key : α → κ}

/-- What belongs to `i`. -/
def share (owner : α → ι) (m : KeyedMap key) (i : ι) : KeyedMap key := m.keep fun v => owner v = i

variable {owner : α → ι} {m : KeyedMap key} {i : ι} {v x : α} {k : κ}

omit [DecidableEq κ] in
theorem values_share : (m.share owner i).values = m.values.filter fun v => owner v = i := rfl

omit [DecidableEq κ] in
theorem mem_share : x ∈ (m.share owner i).values ↔ x ∈ m.values ∧ owner x = i := by
  rw [values_share, List.mem_filter, decide_eq_true_eq]

omit [DecidableEq κ] in
@[simp] theorem share_empty : (∅ : KeyedMap key).share owner i = ∅ := rfl

/-- A key that is looked up belongs to its owner. -/
theorem get?_share (hkey : ∀ x ∈ m.values, key x = k → owner x = i) :
    (m.share owner i).get? k = m.get? k := by
  cases hk : m.get? k with
  | none => exact get?_eq_none_iff.2 fun x hx => get?_eq_none_iff.1 hk x (mem_share.1 hx).1
  | some x => exact get?_keep hk (decide_eq_true (hkey x (mem_of_get? hk) (key_of_get? hk)))

omit [DecidableEq κ] in
theorem mem_keys_share (hkey : ∀ x ∈ m.values, key x = k → owner x = i) :
    k ∈ (m.share owner i).values.map key ↔ k ∈ m.values.map key := by
  constructor
  · rintro hk
    obtain ⟨x, hx, rfl⟩ := List.mem_map.1 hk
    exact List.mem_map_of_mem (mem_share.1 hx).1
  · intro hk
    obtain ⟨x, hx, rfl⟩ := List.mem_map.1 hk
    exact List.mem_map_of_mem (mem_share.2 ⟨hx, hkey x hx rfl⟩)

/-! ## Filing -/

theorem share_set_self (hv : owner v = i) (hkey : ∀ x ∈ m.values, key x = key v → owner x = i) :
    (m.set v).share owner i = (m.share owner i).set v := by
  refine ext ?_
  by_cases hk : key v ∈ m.values.map key
  · rw [values_share, values_set_of_mem hk, values_set_of_mem ((mem_keys_share hkey).2 hk),
      values_share,
      List.filter_map]
    refine congrArg (List.map _) (List.filter_congr fun x hx => ?_)
    rw [Function.comp_apply, replace]
    split_ifs with hxv
    · rw [hv, hkey x hx hxv]
    · rfl
  · rw [values_share, values_set_of_notMem hk,
      values_set_of_notMem fun h => hk ((mem_keys_share hkey).1 h),
      List.filter_append, List.filter_singleton, decide_eq_true hv]
    rfl

theorem share_set_of_ne (hv : owner v ≠ i) (hkey : ∀ x ∈ m.values, key x = key v → owner x ≠ i) :
    (m.set v).share owner i = m.share owner i := by
  refine ext ?_
  by_cases hk : key v ∈ m.values.map key
  · have hnot : ∀ x ∈ m.values.filter (fun x => owner x = i), replace key v x = x := by
      intro x hx
      obtain ⟨hx, hxi⟩ := List.mem_filter.1 hx
      exact if_neg fun hxv => hkey x hx hxv (of_decide_eq_true hxi)
    have hfilter : m.values.filter ((fun x => decide (owner x = i)) ∘ replace key v) =
        m.values.filter fun x => owner x = i := by
      refine List.filter_congr fun x hx => ?_
      rw [Function.comp_apply, replace]
      split_ifs with hxv
      · rw [decide_eq_false hv, decide_eq_false (hkey x hx hxv)]
      · rfl
    rw [values_share, values_set_of_mem hk, values_share, List.filter_map, hfilter,
      List.map_congr_left hnot, List.map_id']
  · rw [values_share, values_set_of_notMem hk, List.filter_append, List.filter_singleton,
      decide_eq_false hv, cond_false,
      List.append_nil, values_share]

/-- No value of another owner has the key of one of these values. -/
def Apart (owner : α → ι) (m : KeyedMap key) (i : ι) (l : List α) : Prop :=
  ∀ v ∈ l, owner v = i ∧ ∀ x ∈ m.values, key x = key v → owner x = i

omit [DecidableEq ι] in
theorem Apart.tail {l : List α} (h : Apart owner m i (v :: l)) : Apart owner (m.set v) i l := by
  intro w hw
  obtain ⟨hwi, hkey⟩ := h w (List.mem_cons_of_mem v hw)
  refine ⟨hwi, fun x hx hxw => ?_⟩
  rcases mem_set.1 hx with rfl | ⟨hx, -⟩
  · exact (h x List.mem_cons_self).1
  · exact hkey x hx hxw

theorem share_foldl_set_self {l : List α} (h : Apart owner m i l) :
    (l.foldl set m).share owner i = l.foldl set (m.share owner i) := by
  induction l generalizing m with
  | nil => rfl
  | cons v l ih =>
    obtain ⟨hv, hkey⟩ := h v List.mem_cons_self
    rw [List.foldl_cons, List.foldl_cons, ih h.tail, share_set_self hv hkey]

theorem share_foldl_set_of_ne {l : List α} {j : ι} (h : Apart owner m j l) (hne : j ≠ i) :
    (l.foldl set m).share owner i = m.share owner i := by
  induction l generalizing m with
  | nil => rfl
  | cons v l ih =>
    obtain ⟨hv, hkey⟩ := h v List.mem_cons_self
    rw [List.foldl_cons, ih h.tail, share_set_of_ne (hv ▸ hne) fun x hx hxv => hkey x hx hxv ▸ hne]

/-! ## Removing -/

theorem share_erase : (m.erase k).share owner i = (m.share owner i).erase k := by
  refine ext ?_
  simp only [values_share, erase, List.filter_filter, Bool.and_comm]

theorem erase_eq_self (h : ∀ x ∈ m.values, key x ≠ k) : m.erase k = m :=
  ext (List.filter_eq_self.2 fun x hx => decide_eq_true (h x hx))

theorem share_erase_of_ne {j : ι} (hkey : ∀ x ∈ m.values, key x = k → owner x = j) (hne : j ≠ i) :
    (m.erase k).share owner i = m.share owner i := by
  rw [share_erase]
  refine erase_eq_self fun x hx hxk => ?_
  obtain ⟨hx, hxi⟩ := mem_share.1 hx
  exact hne ((hkey x hx hxk).symm.trans hxi)

end KeyedMap
