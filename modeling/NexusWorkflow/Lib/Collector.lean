import Mathlib

/-!
# Collectors

A collector waits until every item of a list of expected ones has arrived, and then starts again
from nothing.  An item that arrives twice counts once.
-/

namespace Collector

variable {α : Type} [DecidableEq α] (expected : List α)

/-- With `a`, everything that is expected has arrived. -/
def Completes (arrived : List α) (a : α) : Prop := ∀ e ∈ expected, e = a ∨ e ∈ arrived

instance (arrived : List α) (a : α) : Decidable (Completes expected arrived a) :=
  inferInstanceAs (Decidable (∀ e ∈ expected, _))

/-- What has arrived since the last completion, after one more arrival. -/
def collect (arrived : List α) (a : α) : List α :=
  if Completes expected arrived a then [] else a :: arrived

/-- What has arrived since the last completion. -/
def openAfter (arrivals : List α) : List α := arrivals.foldl (collect expected) []

variable {expected}

@[simp] theorem openAfter_nil : openAfter expected [] = [] := rfl

theorem openAfter_concat (arrivals : List α) (a : α) :
    openAfter expected (arrivals ++ [a]) = collect expected (openAfter expected arrivals) a := by
  simp [openAfter]

omit [DecidableEq α] in
theorem completes_congr {arrived arrived' : List α} (h : ∀ e, e ∈ arrived ↔ e ∈ arrived') (a : α) :
    Completes expected arrived a ↔ Completes expected arrived' a := by
  simp [Completes, h]

/-- In the course of a round, exactly what the round has brought so far is open. -/
theorem mem_openAfter_round {start round before after : List α} {a : α}
    (hstart : openAfter expected start = []) (hnodup : round.Nodup)
    (hround : ∀ e, e ∈ round ↔ e ∈ expected) (hsplit : round = before ++ a :: after) :
    ∀ e, e ∈ openAfter expected (start ++ before) ↔ e ∈ before := by
  induction before using List.reverseRecOn generalizing a after with
  | nil => simp [hstart]
  | append_singleton before b ih =>
    have hsplit' : round = before ++ b :: (a :: after) := by simpa using hsplit
    have hopen := ih hsplit'
    -- `a` is still missing
    have hmissing : ¬ Completes expected (openAfter expected (start ++ before)) b := by
      intro hc
      have ha : a ∈ round := by simp [hsplit']
      have hnd := hnodup
      rw [hsplit', List.nodup_append, List.nodup_cons] at hnd
      rcases hc a ((hround a).1 ha) with rfl | hm
      · exact hnd.2.1.1 List.mem_cons_self
      · exact hnd.2.2 a ((hopen a).1 hm) a (by simp) rfl
    rw [← List.append_assoc, openAfter_concat, collect, if_neg hmissing]
    simp [hopen, or_comm]

/-- In a round that brings every expected item once, in any order, the last arrival completes the
collection and no other does. -/
theorem completes_round_iff {start round before after : List α} {a : α}
    (hstart : openAfter expected start = []) (hnodup : round.Nodup)
    (hround : ∀ e, e ∈ round ↔ e ∈ expected) (hsplit : round = before ++ a :: after) :
    Completes expected (openAfter expected (start ++ before)) a ↔ after = [] := by
  rw [completes_congr (mem_openAfter_round hstart hnodup hround hsplit)]
  constructor
  · intro hc
    rw [List.eq_nil_iff_forall_not_mem]
    intro e he
    rw [hsplit, List.nodup_append, List.nodup_cons] at hnodup
    have hmem : e ∈ round := by simp [hsplit, he]
    rcases hc e ((hround e).1 hmem) with rfl | hb
    · exact hnodup.2.1.1 he
    · exact hnodup.2.2 e hb e (List.mem_cons_of_mem a he) rfl
  · rintro rfl e he
    have hmem := (hround e).2 he
    rw [hsplit] at hmem
    simpa [or_comm] using hmem

/-- After a round nothing is open. -/
theorem openAfter_round {start round : List α} (hstart : openAfter expected start = [])
    (hnodup : round.Nodup) (hround : ∀ e, e ∈ round ↔ e ∈ expected) :
    openAfter expected (start ++ round) = [] := by
  rcases List.eq_nil_or_concat round with rfl | ⟨before, a, rfl⟩
  · simpa using hstart
  · rw [List.concat_eq_append] at hnodup hround ⊢
    have hc := (completes_round_iff hstart hnodup hround
      (show before ++ [a] = before ++ a :: [] from rfl)).2 rfl
    rw [← List.append_assoc, openAfter_concat, collect, if_pos hc]

end Collector
