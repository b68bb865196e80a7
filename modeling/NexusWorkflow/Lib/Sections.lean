import NexusWorkflow.Lib.Indexed

/-!
# Sections that do not overlap

Parties in a list, each found under its index, of which some clash.  A party that changes only
when it is then free of the others (`Sections.Free`) keeps them apart (`Sections.Apart`), and a
party that is among parties kept apart is free of the others.
-/

namespace Sections

variable {α : Type} {clash : α → α → Prop} {l : List α} {i : Nat} {x y : α}

/-- No two parties clash. -/
def Apart (clash : α → α → Prop) (l : List α) : Prop :=
  ∀ ⦃i j : Nat⦄ ⦃x y : α⦄, i ≠ j → l[i]? = some x → l[j]? = some y → ¬ clash x y

/-- If the party at this index were this one, it would clash with none of the others. -/
def Free (clash : α → α → Prop) (l : List α) (i : Nat) (y : α) : Prop :=
  ∀ x ∈ l.eraseIdx i, ¬ clash y x

instance [DecidableRel clash] (l : List α) (i : Nat) (y : α) : Decidable (Free clash l i y) :=
  inferInstanceAs (Decidable (∀ x ∈ l.eraseIdx i, ¬ clash y x))

theorem apart_nil : Apart clash [] := by
  intro i j x y _ hx
  simp at hx

theorem Free.mono (h : Free clash l i x) (himp : ∀ z, clash y z → clash x z) : Free clash l i y :=
  fun z hz hclash => h z hz (himp z hclash)

/-- What clashes with nothing is free anywhere. -/
theorem free_of_not (h : ∀ z, ¬ clash y z) : Free clash l i y := fun z _ => h z

theorem Free.not_clash (h : Free clash l i y) {j : Nat} (hj : l[j]? = some x) (hij : j ≠ i) :
    ¬ clash y x :=
  h x (List.mem_eraseIdx_iff_getElem?.2 ⟨j, hij, hj⟩)

theorem Apart.free (h : Apart clash l) (hi : l[i]? = some x) : Free clash l i x := by
  intro z hz
  obtain ⟨j, hij, hj⟩ := List.mem_eraseIdx_iff_getElem?.1 hz
  exact h hij.symm hi hj

/-- The party changes, and is free of the others then. -/
theorem Apart.set (h : Apart clash l) (hsymm : ∀ x y, clash x y → clash y x)
    (hfree : Free clash l i y) : Apart clash (l.set i y) := by
  intro j k a b hjk ha hb hclash
  rcases Indexed.getElem?_set ha with ⟨rfl, rfl⟩ | ⟨hji, ha'⟩
  · rcases Indexed.getElem?_set hb with ⟨rfl, rfl⟩ | ⟨hkj, hb'⟩
    · exact hjk rfl
    · exact hfree.not_clash hb' hkj hclash
  · rcases Indexed.getElem?_set hb with ⟨rfl, rfl⟩ | ⟨-, hb'⟩
    · exact hfree.not_clash ha' hji (hsymm a b hclash)
    · exact h hjk ha' hb' hclash

/-- Another party comes. -/
theorem Apart.append (h : Apart clash l) (hsymm : ∀ x y, clash x y → clash y x)
    (hfree : ∀ x, ¬ clash y x) : Apart clash (l ++ [y]) := by
  intro j k a b hjk ha hb hclash
  rcases Indexed.getElem?_append_singleton ha with ha | ⟨rfl, rfl⟩
  · rcases Indexed.getElem?_append_singleton hb with hb | ⟨rfl, rfl⟩
    · exact h hjk ha hb hclash
    · exact hfree a (hsymm a b hclash)
  · exact hfree b hclash

end Sections
