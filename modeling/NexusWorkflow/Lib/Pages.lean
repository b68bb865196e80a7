import Mathlib

/-!
# Pages

A list read page by page.  Who goes through the pages of a list to which others add meanwhile, until
a page is not full, has seen all that was there at the beginning.
-/

namespace Pages

variable {α : Type*} {size : Nat}

def page (size n : Nat) (l : List α) : List α := (l.drop (n * size)).take size

theorem page_subset (size n : Nat) (l : List α) : page size n l ⊆ l :=
  fun _ hx => List.mem_of_mem_drop (List.mem_of_mem_take hx)

/-- What is left after a page. -/
theorem mem_page_or {x : α} {n : Nat} {l : List α} (h : x ∈ l.drop (n * size)) :
    x ∈ page size n l ∨ x ∈ l.drop ((n + 1) * size) := by
  rw [← List.take_append_drop size (l.drop (n * size)), List.drop_drop, ← Nat.succ_mul] at h
  exact List.mem_append.1 h

theorem drop_eq_nil {n : Nat} {l : List α} (h : (page size n l).length < size) :
    l.drop ((n + 1) * size) = [] := by
  rw [page, List.length_take, List.length_drop] at h
  rw [List.drop_eq_nil_iff, Nat.succ_mul]
  omega

/-- Whatever is added to the list between two pages. -/
theorem exists_page {lists : Nat → List α} (hgrows : ∀ n, List.Sublist (lists n) (lists (n + 1)))
    {x : α} (hx : x ∈ lists 0) {k : Nat} (hlast : (page size k (lists k)).length < size) :
    ∃ n ≤ k, x ∈ page size n (lists n) := by
  by_contra hnot
  push Not at hnot
  have hleft : ∀ n ≤ k, x ∈ (lists n).drop (n * size) := by
    intro n hn
    induction n with
    | zero => rwa [Nat.zero_mul, List.drop_zero]
    | succ n ih =>
      have hrest := (mem_page_or (ih (Nat.le_of_succ_le hn))).resolve_left
          (hnot n (Nat.le_of_succ_le hn))
      exact ((hgrows n).drop _).subset hrest
  have hrest := (mem_page_or (hleft k (Nat.le_refl k))).resolve_left (hnot k (Nat.le_refl k))
  rw [drop_eq_nil hlast] at hrest
  cases hrest

end Pages
