import Mathlib

/-!
# Patterns of `LIKE`

In a pattern `%` stands for any text, `_` for any character, and a character after a backslash for
itself.  What `escape` makes of a text stands for the text alone.
-/

namespace Like

inductive Item where
  | exact (c : Char)
  | one
  | many
  deriving DecidableEq

/-- The items of a pattern; a pattern must not end with a backslash that escapes nothing. -/
def parse : List Char → Option (List Item)
  | [] => some []
  | ['\\'] => none
  | '\\' :: c :: pattern => (parse pattern).map (.exact c :: ·)
  | '%' :: pattern => (parse pattern).map (.many :: ·)
  | '_' :: pattern => (parse pattern).map (.one :: ·)
  | c :: pattern => (parse pattern).map (.exact c :: ·)

def Item.fits : List Item → List Char → Bool
  | [], text => text.isEmpty
  | exact c :: items, text => text.head? = some c && fits items text.tail
  | one :: items, text => !text.isEmpty && fits items text.tail
  | many :: items, text => text.tails.any fun rest => fits items rest

/-- `text LIKE pattern`, and `none` for an error. -/
def like (pattern text : List Char) : Option Bool := (parse pattern).map fun items =>
    Item.fits items text

/-- The characters that have a meaning of their own. -/
def special (c : Char) : Bool := c = '\\' || c = '%' || c = '_'

def escape (text : List Char) : List Char := text.flatMap fun c =>
    if special c then ['\\', c] else [c]

variable {pattern text : List Char} {items : List Item}

theorem parse_escape_append :
    parse (escape text ++ pattern) = (parse pattern).map (text.map .exact ++ ·) := by
  induction text with
  | nil => exact (Option.map_id' ..).symm
  | cons c text ih =>
    have hcons : escape (c :: text) ++ pattern =
        (if special c then ['\\', c] else [c]) ++ (escape text ++ pattern) := by
      rw [escape, List.flatMap_cons, List.append_assoc]
      rfl
    have hgoal : parse (escape (c :: text) ++ pattern) = (parse (escape text ++ pattern)).map
        (.exact c :: ·) := by
      rw [hcons]
      split_ifs with hc
      · rfl
      · simp only [special, Bool.or_eq_true, decide_eq_true_eq, not_or] at hc
        obtain ⟨⟨hbackslash, hpercent⟩, hunderscore⟩ := hc
        rw [List.singleton_append, parse] <;> simp_all
    rw [hgoal, ih, Option.map_map]
    rfl

theorem fits_exact_append : Item.fits (text.map .exact ++ items) pattern ↔
    ∃ rest, pattern = text ++ rest ∧ Item.fits items rest := by
  induction text generalizing pattern with
  | nil => simp
  | cons c text ih =>
    rw [List.map_cons, List.cons_append, Item.fits, Bool.and_eq_true, decide_eq_true_eq, ih]
    constructor
    · rintro ⟨hhead, rest, htail, hrest⟩
      obtain ⟨tail, rfl⟩ := List.head?_eq_some_iff.1 hhead
      exact ⟨rest, congrArg (c :: ·) htail, hrest⟩
    · rintro ⟨rest, rfl, hrest⟩
      exact ⟨rfl, rest, rfl, hrest⟩

theorem fits_many : Item.fits [.many] text := by
  rw [Item.fits, List.any_eq_true]
  exact ⟨[], by simp [List.mem_tails], rfl⟩

/-- A text that is escaped, a dot and `%`: what begins with the text and the dot. -/
theorem like_escape_dot (text s : List Char) :
    like (escape text ++ ['.', '%']) s = some (decide (text ++ ['.'] <+: s)) := by
  have hparse : parse (escape text ++ ['.', '%']) =
      some (text.map .exact ++ [.exact '.', .many]) := by
    rw [parse_escape_append]
    rfl
  rw [like, hparse, Option.map_some]
  refine congrArg some (Bool.eq_iff_iff.2 ?_)
  rw [decide_eq_true_iff, fits_exact_append]
  constructor
  · rintro ⟨rest, rfl, hrest⟩
    rw [Item.fits, Bool.and_eq_true, decide_eq_true_eq] at hrest
    obtain ⟨tail, rfl⟩ := List.head?_eq_some_iff.1 hrest.1
    exact ⟨tail, by simp⟩
  · rintro ⟨tail, rfl⟩
    refine ⟨'.' :: tail, by simp, ?_⟩
    rw [Item.fits, Bool.and_eq_true]
    exact ⟨rfl, fits_many⟩

end Like
