import NexusWorkflow.Store.Tables

/-!
# What the diffs of a request do

The subscriptions and the compensation records after the operations that `computeStoreOps` derives
from two states.
-/

namespace NexusWorkflow

open StoreOperation

/-- A token of this id waits, by a list in which no id occurs twice. -/
theorem isWaiting_iff {tokens : List Token} (hnd : (tokens.map (·.id)).Nodup) {id : Nat} :
    isWaiting tokens id = true ↔ ∃ t ∈ tokens, t.id = id ∧ t.status = .waiting := by
  unfold isWaiting
  constructor
  · intro h
    obtain ⟨t, ht, hw⟩ := (Option.any_eq_true ..).1 h
    obtain ⟨hmem, hid⟩ := (KeyedMap.get?_ofList_eq_some_iff hnd).1 ht
    exact ⟨t, hmem, hid, by simpa using hw⟩
  · rintro ⟨t, hmem, rfl, hw⟩
    rw [(KeyedMap.get?_ofList_eq_some_iff hnd).2 ⟨hmem, rfl⟩]
    simpa using hw

theorem waiting_of_subscribedTo {t : Token} (h : t.subscribedTo.isSome = true) :
    t.status = .waiting := by
  unfold Token.subscribedTo at h
  split at h
  · assumption
  · cases h

/-! ## Subscriptions -/

/-- The subscriptions of the tokens that have begun to wait. -/
def startedSubscriptions (oldTokens newTokens : List Token) : List EventSubscription :=
  newTokens.filterMap fun t =>
    if isWaiting oldTokens t.id then none else t.subscribedTo.map t.subscription

/-- The tokens with a subscription that wait no longer. -/
def stoppedTokens (oldTokens newTokens : List Token) : List Nat :=
  (oldTokens.filter fun t => t.subscribedTo.isSome ∧ ¬ isWaiting newTokens t.id).map (·.id)

variable {oldTokens newTokens : List Token}

theorem foldl_subscriptionOps (m : KeyedMap EventSubscription.tokenId) :
    (subscriptionOps oldTokens newTokens).foldl writeSubscriptions m =
      (stoppedTokens oldTokens newTokens).foldl KeyedMap.erase
        ((startedSubscriptions oldTokens newTokens).foldl KeyedMap.set m) := by
  have hstarted : newTokens.filterMap (fun token =>
      if isWaiting oldTokens token.id then none
      else token.subscribedTo.map fun type => saveSubscription (token.subscription type)) =
      (startedSubscriptions oldTokens newTokens).map saveSubscription := by
    rw [startedSubscriptions, List.map_filterMap]
    congr 1
    funext t
    by_cases hw : isWaiting oldTokens t.id <;> simp [hw]
    rfl
  rw [subscriptionOps, hstarted, stoppedTokens, List.foldl_append, List.foldl_map, List.foldl_map,
    List.foldl_map]
  rfl

theorem mem_startedSubscriptions {s : EventSubscription} :
    s ∈ startedSubscriptions oldTokens newTokens ↔ ∃ t ∈ newTokens,
      isWaiting oldTokens t.id = false ∧ ∃ type, t.subscribedTo = some type ∧
        s = t.subscription type := by
  unfold startedSubscriptions
  rw [List.mem_filterMap]
  constructor
  · rintro ⟨t, ht, h⟩
    split at h
    · cases h
    · rename_i hw
      obtain ⟨type, htype, rfl⟩ := Option.map_eq_some_iff.1 h
      exact ⟨t, ht, by simpa using hw, type, htype, rfl⟩
  · rintro ⟨t, ht, hw, type, htype, rfl⟩
    exact ⟨t, ht, by simp [hw, htype]⟩

theorem mem_stoppedTokens {id : Nat} :
    id ∈ stoppedTokens oldTokens newTokens ↔ ∃ t ∈ oldTokens, t.id = id ∧
      t.subscribedTo.isSome = true ∧ isWaiting newTokens id = false := by
  unfold stoppedTokens
  rw [List.mem_map]
  constructor
  · rintro ⟨t, ht, rfl⟩
    have ht := List.mem_filter.1 ht
    simp only [decide_eq_true_eq, Bool.not_eq_true] at ht
    exact ⟨t, ht.1, rfl, ht.2⟩
  · rintro ⟨t, ht, rfl, h⟩
    exact ⟨t, List.mem_filter.2 ⟨ht, by simpa using h⟩, rfl⟩

theorem nodup_startedSubscriptions (hnd : (newTokens.map (·.id)).Nodup) :
    ((startedSubscriptions oldTokens newTokens).map (·.tokenId)).Nodup := by
  unfold startedSubscriptions
  induction newTokens with
  | nil => exact List.nodup_nil
  | cons t newTokens ih =>
    rw [List.map_cons, List.nodup_cons] at hnd
    rw [List.filterMap_cons]
    split
    · exact ih hnd.2
    · rename_i s hs
      rw [List.map_cons, List.nodup_cons]
      refine ⟨fun hm => hnd.1 ?_, ih hnd.2⟩
      have hid : s.tokenId = t.id := by
        split at hs
        · cases hs
        · obtain ⟨_, -, rfl⟩ := Option.map_eq_some_iff.1 hs
          rfl
      obtain ⟨s', hs', heq⟩ := List.mem_map.1 hm
      obtain ⟨t', ht', -, _, -, rfl⟩ := mem_startedSubscriptions.1 hs'
      exact List.mem_map.2 ⟨t', ht', heq.trans hid⟩

/-- The subscription of a token after a request, by cases on what the token did. -/
theorem get?_subscriptionOps_started (hnd : (newTokens.map (·.id)).Nodup)
    (m : KeyedMap EventSubscription.tokenId) {t : Token} (ht : t ∈ newTokens)
    (hnew : isWaiting oldTokens t.id = false) {type : WaitConditionType}
    (htype : t.subscribedTo = some type) :
    ((subscriptionOps oldTokens newTokens).foldl writeSubscriptions m).get? t.id =
      some (t.subscription type) := by
  have hwaiting : isWaiting newTokens t.id = true :=
    (isWaiting_iff hnd).2 ⟨t, ht, rfl, waiting_of_subscribedTo (by rw [htype]; rfl)⟩
  have hkeep : t.id ∉ stoppedTokens oldTokens newTokens := by
    intro hm
    obtain ⟨_, -, -, -, hnot⟩ := mem_stoppedTokens.1 hm
    rw [hwaiting] at hnot
    cases hnot
  rw [foldl_subscriptionOps, KeyedMap.get?_foldl_erase, if_neg hkeep]
  exact KeyedMap.get?_foldl_set_of_mem (v := t.subscription type) (nodup_startedSubscriptions hnd)
    (mem_startedSubscriptions.2 ⟨t, ht, hnew, type, htype, rfl⟩)

theorem get?_subscriptionOps_stopped (m : KeyedMap EventSubscription.tokenId) {t : Token}
    (ht : t ∈ oldTokens) (hsub : t.subscribedTo.isSome = true)
    (hgone : isWaiting newTokens t.id = false) :
    ((subscriptionOps oldTokens newTokens).foldl writeSubscriptions m).get? t.id = none := by
  rw [foldl_subscriptionOps, KeyedMap.get?_foldl_erase,
    if_pos (mem_stoppedTokens.2 ⟨t, ht, rfl, hsub, hgone⟩)]

/-- The subscription of any other token stays as it is. -/
theorem get?_subscriptionOps_other (m : KeyedMap EventSubscription.tokenId) {id : Nat}
    (hstarted : ∀ t ∈ newTokens, t.id = id → t.subscribedTo.isSome = true →
      isWaiting oldTokens id = true)
    (hstopped : ∀ t ∈ oldTokens, t.id = id → t.subscribedTo.isSome = true →
      isWaiting newTokens id = true) :
    ((subscriptionOps oldTokens newTokens).foldl writeSubscriptions m).get? id = m.get? id := by
  have hkeep : id ∉ stoppedTokens oldTokens newTokens := by
    intro hm
    obtain ⟨t, ht, hid, hsub, hnot⟩ := mem_stoppedTokens.1 hm
    rw [hstopped t ht hid hsub] at hnot
    cases hnot
  rw [foldl_subscriptionOps, KeyedMap.get?_foldl_erase, if_neg hkeep]
  refine KeyedMap.get?_foldl_set_of_notMem fun s hs hid => ?_
  obtain ⟨t, ht, hnew, type, htype, rfl⟩ := mem_startedSubscriptions.1 hs
  have hid : t.id = id := hid
  rw [hid, hstarted t ht hid (by rw [htype]; rfl)] at hnew
  cases hnew

/-! ## Compensation records -/

/-- `INSERT … ON CONFLICT DO NOTHING`. -/
def insertRecord (m : KeyedMap CompensationRecord.key) (r : CompensationRecord) :
    KeyedMap CompensationRecord.key :=
  if (m.get? r.key).isSome then m else m.set r

theorem get?_insertRecord (m : KeyedMap CompensationRecord.key) (r : CompensationRecord)
    (k : Nat × Nat) :
    (insertRecord m r).get? k = (m.get? k).or (if r.key = k then some r else none) := by
  unfold insertRecord
  by_cases hk : r.key = k
  · subst hk
    cases hget : m.get? r.key <;> simp [hget]
  · rw [if_neg hk, Option.or_none]
    split
    · rfl
    · exact KeyedMap.get?_set_of_ne m hk

theorem get?_foldl_insertRecord (m : KeyedMap CompensationRecord.key) (l : List CompensationRecord)
    (k : Nat × Nat) :
    (l.foldl insertRecord m).get? k = (m.get? k).or (l.find? fun r => r.key = k) := by
  induction l generalizing m with
  | nil => simp
  | cons r l ih =>
    rw [List.foldl_cons, ih, get?_insertRecord, Option.or_assoc, List.find?_cons]
    by_cases hk : r.key = k <;> simp [hk]

variable {oldRecords newRecords : List CompensationRecord}

/-- The records that are new, and the keys of those that are gone. -/
def filedRecords (oldRecords newRecords : List CompensationRecord) : List CompensationRecord :=
  newRecords.filter (·.tokenId ∉ oldRecords.map (·.tokenId))

def goneRecords (oldRecords newRecords : List CompensationRecord) : List (Nat × Nat) :=
  (oldRecords.filter (·.tokenId ∉ newRecords.map (·.tokenId))).map (·.key)

theorem get?_compensationOps (oldRecords newRecords : List CompensationRecord)
    (m : KeyedMap CompensationRecord.key) (k : Nat × Nat) :
    ((compensationOps oldRecords newRecords).foldl writeCompensationRecords m).get? k =
      if k ∈ goneRecords oldRecords newRecords then none
      else (m.get? k).or ((filedRecords oldRecords newRecords).find? fun r => r.key = k) := by
  have hfold : (compensationOps oldRecords newRecords).foldl writeCompensationRecords m =
      (goneRecords oldRecords newRecords).foldl KeyedMap.erase
        ((filedRecords oldRecords newRecords).foldl insertRecord m) := by
    rw [compensationOps, goneRecords, filedRecords, List.foldl_append, List.foldl_map,
      List.foldl_map, List.foldl_map]
    rfl
  rw [hfold, KeyedMap.get?_foldl_erase, get?_foldl_insertRecord]
  split <;> simp_all

theorem mem_filedRecords {r : CompensationRecord} :
    r ∈ filedRecords oldRecords newRecords ↔
      r ∈ newRecords ∧ ∀ r' ∈ oldRecords, r'.tokenId ≠ r.tokenId := by
  simp [filedRecords, List.mem_filter]

theorem mem_goneRecords {k : Nat × Nat} :
    k ∈ goneRecords oldRecords newRecords ↔
      ∃ r ∈ oldRecords, r.key = k ∧ ∀ r' ∈ newRecords, r'.tokenId ≠ r.tokenId := by
  simp only [goneRecords, List.mem_map, List.mem_filter, decide_eq_true_eq, not_exists, not_and]
  constructor
  · rintro ⟨r, ⟨hr, hnot⟩, rfl⟩
    exact ⟨r, hr, rfl, hnot⟩
  · rintro ⟨r, hr, rfl, hnot⟩
    exact ⟨r, ⟨hr, hnot⟩, rfl⟩

end NexusWorkflow
