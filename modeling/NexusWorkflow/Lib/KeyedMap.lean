import Mathlib

/-!
# Insertion-ordered maps keyed by a field

`KeyedMap key` is the finite map a program keeps when it files every value under one of the value's
own fields: at most one value per key, listed in the order in which the keys were first inserted.
`set` replaces the value of a present key in place and appends a new one at the end, so `values`
is what iterating over the map shows.
-/

/-- Values filed under `key`, no key twice, in insertion order. -/
structure KeyedMap {α κ : Type*} (key : α → κ) where
  values : List α
  nodup : (values.map key).Nodup

namespace KeyedMap

variable {α κ : Type*} [DecidableEq κ] {key : α → κ}

omit [DecidableEq κ] in
@[ext] theorem ext {m m' : KeyedMap key} (h : m.values = m'.values) : m = m' := by
  cases m; cases m'; simpa using h

def empty : KeyedMap key := ⟨[], List.nodup_nil⟩

instance : EmptyCollection (KeyedMap key) := ⟨empty⟩

instance : Inhabited (KeyedMap key) := ⟨empty⟩

/-- The value filed under `k`. -/
def get? (m : KeyedMap key) (k : κ) : Option α := m.values.find? fun v => key v = k

variable (key) in
/-- Replace `v`'s namesake by `v`; the keys stay as they are. -/
def replace (v x : α) : α := if key x = key v then v else x

theorem key_replace (v x : α) : key (replace key v x) = key x := by
  unfold replace
  split_ifs with h
  · exact h.symm
  · rfl

/-- File `v`, in place of the value of the same key if there is one. -/
def set (m : KeyedMap key) (v : α) : KeyedMap key where
  values := if key v ∈ m.values.map key then m.values.map (replace key v)
    else m.values ++ [v]
  nodup := by
    split_ifs with h
    · rw [List.map_map, show key ∘ replace key v = key from funext (key_replace v)]
      exact m.nodup
    · rw [List.map_append, List.nodup_append]
      refine ⟨m.nodup, List.nodup_singleton _, ?_⟩
      rintro a ha b hb rfl
      exact h (by simpa [List.mem_singleton.1 hb] using ha)

/-- Remove the value filed under `k`. -/
def erase (m : KeyedMap key) (k : κ) : KeyedMap key where
  values := m.values.filter fun v => key v ≠ k
  nodup := m.nodup.sublist ((List.filter_sublist).map key)

/-- Remove the values that do not satisfy `p`. -/
def keep (m : KeyedMap key) (p : α → Bool) : KeyedMap key where
  values := m.values.filter p
  nodup := m.nodup.sublist ((List.filter_sublist).map key)

/-- File the values of a list one after the other. -/
def ofList (l : List α) : KeyedMap key := l.foldl set ∅

/-! ## Lookup -/

omit [DecidableEq κ] in
@[simp] theorem values_empty : (∅ : KeyedMap key).values = [] := rfl

@[simp] theorem get?_empty (k : κ) : (∅ : KeyedMap key).get? k = none := rfl

theorem get?_eq_some_iff {m : KeyedMap key} {k : κ} {v : α} :
    m.get? k = some v ↔ v ∈ m.values ∧ key v = k := by
  unfold get?
  constructor
  · intro h
    exact ⟨List.mem_of_find?_eq_some h, by simpa using List.find?_some h⟩
  · rintro ⟨hv, rfl⟩
    rcases hf : m.values.find? fun x => key x = key v with _ | w
    · simpa using List.find?_eq_none.1 hf v hv
    · have hw : key w = key v := by simpa using List.find?_some hf
      rw [List.inj_on_of_nodup_map m.nodup (List.mem_of_find?_eq_some hf) hv hw]

theorem get?_of_mem {m : KeyedMap key} {v : α} (h : v ∈ m.values) : m.get? (key v) = some v :=
  get?_eq_some_iff.2 ⟨h, rfl⟩

theorem mem_of_get? {m : KeyedMap key} {k : κ} {v : α} (h : m.get? k = some v) : v ∈ m.values :=
  (get?_eq_some_iff.1 h).1

theorem key_of_get? {m : KeyedMap key} {k : κ} {v : α} (h : m.get? k = some v) : key v = k :=
  (get?_eq_some_iff.1 h).2

theorem get?_eq_none_iff {m : KeyedMap key} {k : κ} :
    m.get? k = none ↔ ∀ v ∈ m.values, key v ≠ k := by
  simp [get?, List.find?_eq_none]

omit [DecidableEq κ] in
/-- Two values of a map with one key are the same value. -/
theorem eq_of_key_eq {m : KeyedMap key} {v w : α} (hv : v ∈ m.values) (hw : w ∈ m.values)
    (h : key v = key w) : v = w :=
  List.inj_on_of_nodup_map m.nodup hv hw h

/-! ## Filing -/

theorem values_set_of_mem {m : KeyedMap key} {v : α} (h : key v ∈ m.values.map key) :
    (m.set v).values = m.values.map (replace key v) := by
  simp only [set, if_pos h]

theorem values_set_of_notMem {m : KeyedMap key} {v : α} (h : key v ∉ m.values.map key) :
    (m.set v).values = m.values ++ [v] := by
  simp only [set, if_neg h]

theorem mem_set {m : KeyedMap key} {v x : α} :
    x ∈ (m.set v).values ↔ x = v ∨ (x ∈ m.values ∧ key x ≠ key v) := by
  by_cases h : key v ∈ m.values.map key
  · rw [values_set_of_mem h]
    obtain ⟨w, hw, hk⟩ := List.mem_map.1 h
    constructor
    · intro hx
      obtain ⟨y, hy, rfl⟩ := List.mem_map.1 hx
      unfold replace
      split_ifs with hyv
      · exact Or.inl rfl
      · exact Or.inr ⟨hy, hyv⟩
    · rintro (rfl | ⟨hx, hne⟩)
      · exact List.mem_map.2 ⟨w, hw, if_pos hk⟩
      · exact List.mem_map.2 ⟨x, hx, if_neg hne⟩
  · rw [values_set_of_notMem h, List.mem_append, List.mem_singleton]
    constructor
    · rintro (hx | rfl)
      · exact Or.inr ⟨hx, fun e => h (List.mem_map.2 ⟨x, hx, e⟩)⟩
      · exact Or.inl rfl
    · rintro (rfl | ⟨hx, -⟩)
      · exact Or.inr rfl
      · exact Or.inl hx

@[simp] theorem get?_set_self (m : KeyedMap key) (v : α) : (m.set v).get? (key v) = some v :=
  get?_eq_some_iff.2 ⟨mem_set.2 (Or.inl rfl), rfl⟩

theorem get?_set_of_ne (m : KeyedMap key) {v : α} {k : κ} (h : key v ≠ k) :
    (m.set v).get? k = m.get? k := by
  rcases hk : m.get? k with _ | w
  · rw [get?_eq_none_iff] at hk ⊢
    intro x hx
    rcases mem_set.1 hx with rfl | ⟨hx, -⟩
    · exact h
    · exact hk x hx
  · obtain ⟨hw, rfl⟩ := get?_eq_some_iff.1 hk
    exact get?_eq_some_iff.2 ⟨mem_set.2 (Or.inr ⟨hw, h.symm⟩), rfl⟩

theorem get?_set (m : KeyedMap key) (v : α) (k : κ) :
    (m.set v).get? k = if key v = k then some v else m.get? k := by
  split_ifs with h
  · rw [← h, get?_set_self]
  · exact get?_set_of_ne m h

/-! ## Removing -/

theorem mem_erase {m : KeyedMap key} {k : κ} {x : α} :
    x ∈ (m.erase k).values ↔ x ∈ m.values ∧ key x ≠ k := by
  simp [erase, List.mem_filter]

@[simp] theorem get?_erase_self (m : KeyedMap key) (k : κ) : (m.erase k).get? k = none :=
  get?_eq_none_iff.2 fun _ hv => (mem_erase.1 hv).2

theorem get?_erase_of_ne (m : KeyedMap key) {k k' : κ} (h : k ≠ k') :
    (m.erase k).get? k' = m.get? k' := by
  rcases hk : m.get? k' with _ | w
  · rw [get?_eq_none_iff] at hk ⊢
    exact fun x hx => hk x (mem_erase.1 hx).1
  · obtain ⟨hw, rfl⟩ := get?_eq_some_iff.1 hk
    exact get?_eq_some_iff.2 ⟨mem_erase.2 ⟨hw, h.symm⟩, rfl⟩

theorem get?_keep {m : KeyedMap key} {p : α → Bool} {k : κ} {v : α} (h : m.get? k = some v)
    (hp : p v = true) : (m.keep p).get? k = some v := by
  obtain ⟨hv, hk⟩ := get?_eq_some_iff.1 h
  exact get?_eq_some_iff.2 ⟨List.mem_filter.2 ⟨hv, hp⟩, hk⟩

theorem notMem_keys {m : KeyedMap key} {k : κ} (h : m.get? k = none) : k ∉ m.values.map key :=
  fun hmem => by
  obtain ⟨v, hv, hk⟩ := List.mem_map.1 hmem
  exact get?_eq_none_iff.1 h v hv hk

/-- What is filed under a new key and removed again leaves the map as it was. -/
theorem erase_set {m : KeyedMap key} {v : α} (h : m.get? (key v) = none) :
    (m.set v).erase (key v) = m := by
  refine ext ?_
  have hkeep : m.values.filter (fun x => key x ≠ key v) = m.values :=
    List.filter_eq_self.2 fun x hx => by simpa using get?_eq_none_iff.1 h x hx
  simp only [erase, values_set_of_notMem (notMem_keys h), List.filter_append, hkeep]
  simp

omit [DecidableEq κ] in
theorem keep_eq_self {m : KeyedMap key} {p : α → Bool} (h : ∀ v ∈ m.values, p v = true) :
    m.keep p = m :=
  ext (List.filter_eq_self.2 h)

omit [DecidableEq κ] in
theorem keep_keep {m : KeyedMap key} {p q : α → Bool}
    (h : ∀ v ∈ m.values, p v = true → q v = true) : (m.keep q).keep p = m.keep p := by
  refine ext ?_
  simp only [keep, List.filter_filter]
  refine List.filter_congr fun v hv => ?_
  by_cases hp : p v = true
  · rw [hp, h v hv hp, Bool.and_self]
  · rw [Bool.not_eq_true] at hp
    rw [hp, Bool.false_and]

/-- What is filed under a new key and does not belong to the kept ones. -/
theorem keep_set {m : KeyedMap key} {v : α} {p : α → Bool} (h : m.get? (key v) = none)
    (hp : p v = false) : (m.set v).keep p = m.keep p := by
  refine ext ?_
  simp only [keep, values_set_of_notMem (notMem_keys h), List.filter_append, List.filter_singleton,
    hp, cond_false,
    List.append_nil]

/-! ## Filing and removing lists -/

theorem get?_foldl_set_of_notMem {m : KeyedMap key} {l : List α} {k : κ} (h : ∀ v ∈ l, key v ≠ k) :
    (l.foldl set m).get? k = m.get? k := by
  induction l generalizing m with
  | nil => rfl
  | cons v l ih =>
    rw [List.foldl_cons, ih fun w hw => h w (List.mem_cons_of_mem v hw),
      get?_set_of_ne m (h v List.mem_cons_self)]

theorem get?_foldl_set_of_mem {m : KeyedMap key} {l : List α} (hl : (l.map key).Nodup) {v : α}
    (hv : v ∈ l) : (l.foldl set m).get? (key v) = some v := by
  induction l generalizing m with
  | nil => cases hv
  | cons w l ih =>
    rw [List.map_cons, List.nodup_cons] at hl
    rw [List.foldl_cons]
    rcases List.mem_cons.1 hv with rfl | hv
    · rw [get?_foldl_set_of_notMem fun x hx hk => hl.1 (List.mem_map.2 ⟨x, hx, hk⟩),
        get?_set_self]
    · exact ih hl.2 hv

theorem get?_foldl_erase {m : KeyedMap key} {l : List κ} {k : κ} :
    (l.foldl erase m).get? k = if k ∈ l then none else m.get? k := by
  induction l generalizing m with
  | nil => simp
  | cons x l ih =>
    rw [List.foldl_cons, ih]
    by_cases hk : k = x
    · subst hk
      simp
    · by_cases hl : k ∈ l
      · simp [hl]
      · simp [hl, hk, get?_erase_of_ne m (Ne.symm hk)]

theorem mem_foldl_set {m : KeyedMap key} {l : List α} {v : α} (h : v ∈ (l.foldl set m).values) :
    v ∈ m.values ∨ v ∈ l := by
  induction l generalizing m with
  | nil => exact .inl h
  | cons w l ih =>
    rcases ih h with hm | hl
    · rcases mem_set.1 hm with rfl | ⟨hm, -⟩
      · exact .inr List.mem_cons_self
      · exact .inl hm
    · exact .inr (List.mem_cons_of_mem w hl)

/-- What is there after a list was filed in which no key occurs twice. -/
theorem mem_foldl_set_iff {m : KeyedMap key} {l : List α} (hl : (l.map key).Nodup) {v : α} :
    v ∈ (l.foldl set m).values ↔ v ∈ l ∨ v ∈ m.values ∧ ∀ w ∈ l, key w ≠ key v := by
  constructor
  · intro hv
    have hget := get?_of_mem hv
    by_cases hk : ∃ w ∈ l, key w = key v
    · obtain ⟨w, hw, hwv⟩ := hk
      rw [← hwv, get?_foldl_set_of_mem hl hw] at hget
      exact .inl (Option.some.inj hget ▸ hw)
    · have hnot : ∀ w ∈ l, key w ≠ key v := fun w hw hwv => hk ⟨w, hw, hwv⟩
      rw [get?_foldl_set_of_notMem hnot] at hget
      exact .inr ⟨mem_of_get? hget, hnot⟩
  · rintro (hv | ⟨hv, hnot⟩)
    · exact mem_of_get? (get?_foldl_set_of_mem hl hv)
    · refine mem_of_get? (k := key v) ?_
      rw [get?_foldl_set_of_notMem hnot]
      exact get?_of_mem hv

theorem mem_of_mem_ofList {l : List α} {v : α} (h : v ∈ (ofList l : KeyedMap key).values) :
    v ∈ l := by
  rcases mem_foldl_set h with h | h
  · cases h
  · exact h

/-- What a map made from a list holds, when no key occurs twice in the list. -/
theorem get?_ofList_eq_some_iff {l : List α} (hl : (l.map key).Nodup) {k : κ} {v : α} :
    (ofList l : KeyedMap key).get? k = some v ↔ v ∈ l ∧ key v = k := by
  constructor
  · intro h
    by_cases hk : ∃ w ∈ l, key w = k
    · obtain ⟨w, hw, rfl⟩ := hk
      rw [ofList, get?_foldl_set_of_mem hl hw] at h
      cases h
      exact ⟨hw, rfl⟩
    · rw [ofList, get?_foldl_set_of_notMem fun w hw he => hk ⟨w, hw, he⟩] at h
      cases h
  · rintro ⟨hv, rfl⟩
    exact get?_foldl_set_of_mem hl hv

/-! ## Reading a map back from its values -/

theorem foldl_set_values (m : KeyedMap key) (l : List α)
    (h : ((m.values ++ l).map key).Nodup) : (l.foldl set m).values = m.values ++ l := by
  induction l generalizing m with
  | nil => simp
  | cons v l ih =>
    have hv : key v ∉ m.values.map key := by
      rw [List.map_append, List.nodup_append] at h
      exact fun hm => h.2.2 _ hm _ (List.mem_map.2 ⟨v, List.mem_cons_self, rfl⟩) rfl
    have hset : (m.set v).values = m.values ++ [v] := values_set_of_notMem hv
    rw [List.foldl_cons, ih (m.set v) (by rw [hset]; simpa using h), hset]
    simp

theorem values_ofList {l : List α} (h : (l.map key).Nodup) :
    (ofList l : KeyedMap key).values = l := by
  have := foldl_set_values (∅ : KeyedMap key) l (by simpa using h)
  simpa [ofList] using this

/-- Filing a map's own values one after the other gives the map back. -/
@[simp] theorem ofList_values (m : KeyedMap key) : ofList m.values = m := by
  exact ext (values_ofList m.nodup)

end KeyedMap
