import Mathlib

/-!
# Lists of parties

The parties of a system in a list, each found under its index: what is at an index after one party
has changed, come or gone.
-/

namespace Indexed

variable {α : Type} {l : List α} {x y : α} {i j : Nat}

/-- One party has changed. -/
theorem getElem?_set (h : (l.set i y)[j]? = some x) : j = i ∧ x = y ∨ j ≠ i ∧ l[j]? = some x := by
  by_cases hij : i = j
  · subst hij
    have hlt := (List.getElem?_eq_some_iff.1 h).1
    rw [List.length_set] at hlt
    rw [List.getElem?_set_self hlt] at h
    exact .inl ⟨rfl, (Option.some.inj h).symm⟩
  · rw [List.getElem?_set_ne hij] at h
    exact .inr ⟨Ne.symm hij, h⟩

theorem mem_set_self (h : l[i]? = some x) : y ∈ l.set i y :=
  List.mem_of_getElem? (List.getElem?_set_self (List.getElem?_eq_some_iff.1 h).1)

/-- The others stay. -/
theorem mem_set_of_ne {z : α} (h : l[i]? = some x) (hz : z ∈ l) (hne : z ≠ x) : z ∈ l.set i y := by
  obtain ⟨k, hk⟩ := List.mem_iff_getElem?.1 hz
  have hik : i ≠ k := by
    rintro rfl
    exact hne (Option.some.inj (hk.symm.trans h))
  exact List.mem_of_getElem? ((List.getElem?_set_ne hik).trans hk)

/-- One party has come. -/
theorem getElem?_append_singleton (h : (l ++ [y])[i]? = some x) :
    l[i]? = some x ∨ i = l.length ∧ x = y := by
  by_cases hi : i < l.length
  · rw [List.getElem?_append_left hi] at h
    exact .inl h
  · rw [List.getElem?_append_right (by omega)] at h
    have hlt := (List.getElem?_eq_some_iff.1 h).1
    have hzero : i - l.length = 0 := by
      rw [List.length_singleton] at hlt
      omega
    rw [hzero] at h
    exact .inr ⟨by omega, (Option.some.inj h).symm⟩

/-- One party has gone. -/
theorem mem_eraseIdx_of_ne {z : α} (h : l[i]? = some x) (hz : z ∈ l) (hne : z ≠ x) :
    z ∈ l.eraseIdx i := by
  obtain ⟨k, hk⟩ := List.mem_iff_getElem?.1 hz
  refine List.mem_eraseIdx_iff_getElem?.2 ⟨k, ?_, hk⟩
  rintro rfl
  exact hne (Option.some.inj (hk.symm.trans h))

/-- Two parties that do not stand in the relation, in any order, are one. -/
theorem eq_of_pairwise {R : α → α → Prop} (h : l.Pairwise R) (hx : x ∈ l) (hy : y ∈ l)
    (hxy : ¬ R x y) (hyx : ¬ R y x) : x = y := by
  induction h with
  | nil => cases hx
  | cons hhead _ ih =>
    rcases List.mem_cons.1 hx with rfl | hx'
    · rcases List.mem_cons.1 hy with rfl | hy'
      · rfl
      · exact absurd (hhead y hy') hxy
    · rcases List.mem_cons.1 hy with rfl | hy'
      · exact absurd (hhead x hx') hyx
      · exact ih hx' hy'

end Indexed
