import Mathlib

/-!
# Machines

A machine in its surroundings: they decide what happens next, and `step` says what state the machine
is in then, if this can happen at all.  A condition on what happens restricts the runs
(`Machine.Reaches`).  Then the rule is: an invariant that every step of the restricted runs keeps
holds in every state of them (`Machine.Reaches.keeps`).
-/

namespace Machine

variable {σ ι : Type} {step : σ → ι → Option σ} {C : σ → ι → Prop} {s s' : σ}

variable (step C) in
/-- The states that the machine comes to when all that happens meets the condition. -/
inductive Reaches (s : σ) : σ → Prop
  | refl : Reaches s s
  | tail {s' s'' : σ} {i : ι} (h : Reaches s s') (hC : C s' i) (hstep : step s' i = some s'') :
      Reaches s s''

theorem Reaches.keeps {I : σ → Prop} (h : Reaches step C s s') (hs : I s)
    (hI : ∀ {s s' : σ} {i : ι}, I s → C s i → step s i = some s' → I s') : I s' := by
  induction h with
  | refl => exact hs
  | tail _ hC hstep ih => exact hI ih hC hstep

theorem Reaches.trans {s'' : σ} (h : Reaches step C s s') (h' : Reaches step C s' s'') :
    Reaches step C s s'' := by
  induction h' with
  | refl => exact h
  | tail _ hC hstep ih => exact ih.tail hC hstep

/-- What comes of a call of another system: the answer, an error, or an error although the call has
taken effect. -/
inductive Outcome where
  | ok | failed | lost
  deriving DecidableEq

/-- What comes of a machine to which these things happen one after the other. -/
def runs (step : σ → ι → Option σ) (C : σ → ι → Prop) [∀ s i, Decidable (C s i)] :
    List ι → σ → Option σ
  | [], s => some s
  | i :: rest, s => if C s i then (step s i).bind (runs step C rest) else none

theorem Reaches.of_runs [∀ s i, Decidable (C s i)] {happenings : List ι}
    (h : runs step C happenings s = some s') : Reaches step C s s' := by
  induction happenings generalizing s with
  | nil =>
    cases h
    exact .refl
  | cons i rest ih =>
    unfold runs at h
    split_ifs at h with hC
    obtain ⟨s₁, hstep, hrest⟩ := Option.bind_eq_some_iff.1 h
    exact (Reaches.refl.tail hC hstep).trans (ih hrest)

end Machine
