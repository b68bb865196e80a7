import Mathlib

/-!
# Text

`trim` of JavaScript, and the entries of a text that is a list with a separator.  Blanks around a
text do not change what `trim` leaves of it, and the entries of two texts with a separator between
them are those of the first one and then those of the second one.
-/

namespace Text

/-- White space and line terminators: what `trim` removes. -/
def isBlank (c : Char) : Bool :=
  c.toNat ∈ [0x09, 0x0A, 0x0B, 0x0C, 0x0D, 0x20, 0xA0, 0x1680, 0x2028, 0x2029, 0x202F, 0x205F,
    0x3000, 0xFEFF] ∨
    (0x2000 ≤ c.toNat ∧ c.toNat ≤ 0x200A)

def trim (s : List Char) : List Char := (s.dropWhile isBlank).rdropWhile isBlank

theorem rdropWhile_append_of_pos {α : Type} {p : α → Bool} {l : List α} (s : List α)
    (h : ∀ a ∈ l, p a = true) : (s ++ l).rdropWhile p = s.rdropWhile p := by
  unfold List.rdropWhile
  rw [List.reverse_append, List.dropWhile_append_of_pos fun a ha => h a (List.mem_reverse.1 ha)]

variable {before after s : List Char}

theorem trim_append (hafter : ∀ c ∈ after, isBlank c = true) : trim (s ++ after) = trim s := by
  unfold trim
  rw [List.dropWhile_append]
  split_ifs with hs
  · have hs' : s.dropWhile isBlank = [] := List.isEmpty_iff.1 hs
    have hafter' : after.dropWhile isBlank = [] := List.dropWhile_eq_nil_iff.2 hafter
    rw [hs', hafter']
  · exact rdropWhile_append_of_pos _ hafter

theorem trim_pad (hbefore : ∀ c ∈ before, isBlank c = true)
    (hafter : ∀ c ∈ after, isBlank c = true) : trim (before ++ s ++ after) = trim s := by
  rw [trim_append hafter]
  unfold trim
  rw [List.dropWhile_append_of_pos hbefore]

/-- The entries that are not empty, trimmed. -/
def entries (separator : Char) (s : List Char) : List (List Char) :=
  ((s.splitOn separator).map trim).filter (· ≠ [])

theorem entries_append (separator : Char) (s t : List Char) :
    entries separator (s ++ separator :: t) = entries separator s ++ entries separator t := by
  unfold entries
  rw [List.splitOn_append_cons_self, List.map_append, List.filter_append]

theorem entries_singleton {separator : Char} (hs : separator ∉ s) (hne : trim s ≠ []) :
    entries separator s = [trim s] := by
  unfold entries
  rw [List.splitOn_eq_singleton hs]
  simp [hne]

end Text
