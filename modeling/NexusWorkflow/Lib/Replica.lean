import Mathlib

/-!
# Replicas

One side commits changes, and another one applies them later. Each change belongs to a key, and what
is compared is the changes of one key (`Replica.log`). A replica follows when the changes that it
has applied are the first ones of those that have been committed (`Replica.Follows`); it goes on
following as long as it applies only the change that is due.
-/

namespace Replica

variable {κ α : Type} [DecidableEq κ]

/-- The changes of a key. -/
def log (changes : List (κ × α)) (k : κ) : List α := (changes.filter (·.1 = k)).map Prod.snd

theorem log_concat (changes : List (κ × α)) (k k' : κ) (a : α) :
    log (changes ++ [(k, a)]) k' = if k = k' then log changes k' ++ [a] else log changes k' := by
  unfold log
  rw [List.filter_append, List.map_append]
  by_cases h : k = k' <;> simp [h]

variable (committed applied : List (κ × α))

def Follows : Prop := ∀ k, log applied k <+: log committed k

/-- What has been committed and not been applied. -/
def pending (k : κ) : List α := (log committed k).drop (log applied k).length

/-- This change is the next one to be applied. -/
def Due (k : κ) (a : α) : Prop := (pending committed applied k).head? = some a

variable {committed applied} {k k' : κ} {a : α}

theorem Follows.log_eq (h : Follows committed applied) (k : κ) :
    log committed k = log applied k ++ pending committed applied k := by
  obtain ⟨rest, hrest⟩ := h k
  unfold pending
  rw [← hrest, List.drop_left]

theorem Due.pending_eq (hdue : Due committed applied k a) :
    pending committed applied k = a :: (pending committed applied k).tail := by
  obtain ⟨rest, hrest⟩ := List.head?_eq_some_iff.1 hdue
  rw [hrest, List.tail_cons]

theorem Follows.log_eq_of_due (h : Follows committed applied) (hdue : Due committed applied k a) :
    log committed k = log applied k ++ a :: (pending committed applied k).tail := by
  exact (h.log_eq k).trans (congrArg (log applied k ++ ·) hdue.pending_eq)

theorem Follows.commit (h : Follows committed applied) (k : κ) (a : α) :
    Follows (committed ++ [(k, a)]) applied := by
  intro k'
  rw [log_concat]
  split_ifs
  · exact (h k').trans (List.prefix_append _ _)
  · exact h k'

theorem Follows.apply (h : Follows committed applied) (hdue : Due committed applied k a) :
    Follows committed (applied ++ [(k, a)]) := by
  intro k'
  rw [log_concat]
  split_ifs with hk
  · subst hk
    exact ⟨_, by rw [h.log_eq_of_due hdue, List.append_assoc]; rfl⟩
  · exact h k'

theorem pending_commit (h : Follows committed applied) (k : κ) (a : α) (k' : κ) :
    pending (committed ++ [(k, a)]) applied k' =
      if k = k' then pending committed applied k' ++ [a] else pending committed applied k' := by
  unfold pending
  rw [log_concat]
  split_ifs
  · exact List.drop_append_of_le_length (h k').length_le
  · rfl

theorem pending_apply (k : κ) (a : α) (k' : κ) :
    pending committed (applied ++ [(k, a)]) k' =
      if k = k' then (pending committed applied k').tail else pending committed applied k' := by
  unfold pending
  rw [log_concat]
  split_ifs
  · rw [List.length_append, List.tail_drop]
    rfl
  · rfl

end Replica
