import Mathlib

/-!
# Checked computations

What it means that a computation in `Except` succeeded: each of its parts did.  `of_foldlM` is the
invariant rule for a checked loop.  `FailsOnly` bounds the errors of a computation by those of its
parts.
-/

namespace Except

variable {ε α β σ : Type}

theorem bind_eq_ok_iff {x : Except ε α} {f : α → Except ε β} {b : β} :
    x >>= f = .ok b ↔ ∃ a, x = .ok a ∧ f a = .ok b := by
  cases x <;> simp [bind, Except.bind]

@[simp] theorem pure_eq_ok_iff {a b : α} : (pure a : Except ε α) = .ok b ↔ a = b := by
  simp [pure, Except.pure]

@[simp] theorem throw_ne_ok {e : ε} {b : α} : (throw e : Except ε α) ≠ .ok b := by
  simp [throw, throwThe, MonadExceptOf.throw]

theorem foldlM_cons_eq_ok_iff {f : σ → α → Except ε σ} {s r : σ} {a : α} {l : List α} :
    (a :: l).foldlM f s = .ok r ↔ ∃ s', f s a = .ok s' ∧ l.foldlM f s' = .ok r := by
  rw [List.foldlM_cons, bind_eq_ok_iff]

/-- A checked loop keeps what each of its rounds keeps. -/
theorem of_foldlM {I : σ → Prop} {f : σ → α → Except ε σ} {l : List α} {s r : σ}
    (h : l.foldlM f s = .ok r) (hs : I s)
    (hf : ∀ s s' a, a ∈ l → I s → f s a = .ok s' → I s') : I r := by
  induction l generalizing s with
  | nil =>
    rw [List.foldlM_nil, pure_eq_ok_iff] at h
    exact h ▸ hs
  | cons a l ih =>
    obtain ⟨s', hs', hr⟩ := foldlM_cons_eq_ok_iff.1 h
    exact ih hr (hf s s' a List.mem_cons_self hs hs')
      fun s s' b hb => hf s s' b (List.mem_cons_of_mem a hb)

theorem map_eq_ok_iff {f : α → β} {x : Except ε α} {b : β} :
    f <$> x = .ok b ↔ ∃ a, x = .ok a ∧ f a = b := by
  cases x <;> simp [Functor.map, Except.map]

theorem mapM_cons_eq_ok_iff {f : α → Except ε β} {a : α} {l : List α} {r : List β} :
    (a :: l).mapM f = .ok r ↔ ∃ b bs, f a = .ok b ∧ l.mapM f = .ok bs ∧ b :: bs = r := by
  rw [List.mapM_cons, bind_eq_ok_iff]
  simp only [bind_eq_ok_iff, pure_eq_ok_iff]
  constructor
  · rintro ⟨b, hb, bs, hbs, h⟩
    exact ⟨b, bs, hb, hbs, h⟩
  · rintro ⟨b, bs, hb, hbs, h⟩
    exact ⟨b, hb, bs, hbs, h⟩

/-- A checked map gives nothing but results of its elements. -/
theorem mem_of_mapM {f : α → Except ε β} {l : List α} {r : List β} (h : l.mapM f = .ok r) {b : β}
    (hb : b ∈ r) : ∃ a ∈ l, f a = .ok b := by
  induction l generalizing r with
  | nil =>
    rw [List.mapM_nil, pure_eq_ok_iff] at h
    subst h
    cases hb
  | cons a l ih =>
    obtain ⟨x, bs, hx, hbs, rfl⟩ := mapM_cons_eq_ok_iff.1 h
    rcases List.mem_cons.1 hb with rfl | hb
    · exact ⟨a, List.mem_cons_self, hx⟩
    · obtain ⟨y, hy, hok⟩ := ih hbs hb
      exact ⟨y, List.mem_cons_of_mem a hy, hok⟩

/-- A checked map gives a result for every element. -/
theorem exists_of_mapM {f : α → Except ε β} {l : List α} {r : List β} (h : l.mapM f = .ok r) {a : α}
    (ha : a ∈ l) : ∃ b ∈ r, f a = .ok b := by
  induction l generalizing r with
  | nil => cases ha
  | cons x l ih =>
    obtain ⟨b, bs, hx, hbs, rfl⟩ := mapM_cons_eq_ok_iff.1 h
    rcases List.mem_cons.1 ha with rfl | ha
    · exact ⟨b, List.mem_cons_self, hx⟩
    · obtain ⟨y, hy, hok⟩ := ih hbs ha
      exact ⟨y, List.mem_cons_of_mem b hy, hok⟩

/-- Whatever error the computation ends in has the property. -/
def FailsOnly (E : ε → Prop) (x : Except ε α) : Prop := ∀ e, x = .error e → E e

namespace FailsOnly

variable {E : ε → Prop}

theorem ok (a : α) : FailsOnly E (.ok a : Except ε α) := nofun

theorem error {e : ε} (h : E e) : FailsOnly E (.error e : Except ε α) := by
  rintro _ ⟨⟩
  exact h

theorem bind {x : Except ε α} {f : α → Except ε β} (h : FailsOnly E x)
    (h' : ∀ a, x = .ok a → FailsOnly E (f a)) : FailsOnly E (x >>= f) := by
  cases x with
  | error e =>
    rintro _ ⟨⟩
    exact h e rfl
  | ok a => exact h' a rfl

theorem foldlM {f : σ → α → Except ε σ} {l : List α} (h : ∀ s a, a ∈ l → FailsOnly E (f s a))
    (s : σ) : FailsOnly E (l.foldlM f s) := by
  induction l generalizing s with
  | nil => exact ok s
  | cons a l ih =>
    rw [List.foldlM_cons]
    exact (h s a List.mem_cons_self).bind fun s' _ =>
      ih (fun s b hb => h s b (List.mem_cons_of_mem a hb)) s'

end FailsOnly

theorem eq_ok_of_toOption {x : Except ε α} {a : α} (h : x.toOption = some a) : x = .ok a := by
  cases x with
  | error _ => cases h
  | ok x =>
    cases h
    rfl

end Except
