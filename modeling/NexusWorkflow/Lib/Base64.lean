import Mathlib

/-!
# Base64

Three bytes are four digits of the alphabet; the last digits of a text stand for one or two bytes.
`decode` passes over what is not in the alphabet, and gives back what `encode` was given.
-/

namespace Base64

def alphabet : List Char :=
  "ABCDEFGHIJKLMNOPQRSTUVWXYZabcdefghijklmnopqrstuvwxyz0123456789+/".toList

def digit (n : Nat) : Char := alphabet.getD n '='

def value (c : Char) : Option Nat := alphabet.idxOf? c

def digits : List UInt8 → List Nat
  | [] => []
  | [a] => [a.toNat / 4, a.toNat % 4 * 16]
  | [a, b] => [a.toNat / 4, a.toNat % 4 * 16 + b.toNat / 16, b.toNat % 16 * 4]
  | a :: b :: c :: rest =>
      a.toNat / 4 :: (a.toNat % 4 * 16 + b.toNat / 16) ::
        (b.toNat % 16 * 4 + c.toNat / 64) ::
      c.toNat % 64 :: digits rest

def bytes : List Nat → List UInt8
  | a :: b :: c :: d :: rest => UInt8.ofNat (a * 4 + b / 16) :: UInt8.ofNat (b % 16 * 16 + c / 4) ::
      UInt8.ofNat (c % 4 * 64 + d) :: bytes rest
  | [a, b, c] => [UInt8.ofNat (a * 4 + b / 16), UInt8.ofNat (b % 16 * 16 + c / 4)]
  | [a, b] => [UInt8.ofNat (a * 4 + b / 16)]
  | _ => []

def padding (s : List UInt8) : List Char := List.replicate ((3 - s.length % 3) % 3) '='

def encode (s : List UInt8) : List Char := (digits s).map digit ++ padding s

def decode (s : List Char) : List UInt8 := bytes (s.filterMap value)

theorem digits_lt (s : List UInt8) : ∀ n ∈ digits s, n < 64 := by
  induction s using digits.induct with
  | case1 => simp [digits]
  | case2 a =>
    have ha := a.toNat_lt
    simp only [digits, List.mem_cons, List.not_mem_nil, or_false, forall_eq_or_imp, forall_eq]
    omega
  | case3 a b =>
    have ha := a.toNat_lt
    have hb := b.toNat_lt
    simp only [digits, List.mem_cons, List.not_mem_nil, or_false, forall_eq_or_imp, forall_eq]
    omega
  | case4 a b c rest ih =>
    have ha := a.toNat_lt
    have hb := b.toNat_lt
    have hc := c.toNat_lt
    simp only [digits, List.mem_cons, forall_eq_or_imp]
    exact ⟨by omega, by omega, by omega, by omega, ih⟩

theorem bytes_digits (s : List UInt8) : bytes (digits s) = s := by
  have hbyte : ∀ (a : UInt8) (n : Nat), n = a.toNat → UInt8.ofNat n = a :=
      fun a n h => h ▸ UInt8.ofNat_toNat
  induction s using digits.induct with
  | case1 => rfl
  | case2 a =>
    rw [digits, bytes, hbyte a _ (by omega)]
  | case3 a b =>
    have hb := b.toNat_lt
    rw [digits, bytes, hbyte a _ (by omega), hbyte b _ (by omega)]
  | case4 a b c rest ih =>
    have hb := b.toNat_lt
    have hc := c.toNat_lt
    rw [digits, bytes, ih, hbyte a _ (by omega), hbyte b _ (by omega), hbyte c _ (by omega)]

theorem value_digit {n : Nat} (h : n < 64) : value (digit n) = some n := by
  have hall : ∀ n : Fin 64, value (digit n) = some n.val := by decide +kernel
  exact hall ⟨n, h⟩

theorem decode_encode (s : List UInt8) : decode (encode s) = s := by
  have hdigits : ∀ l : List Nat, (∀ n ∈ l, n < 64) → (l.map digit).filterMap value = l :=
      fun l hl => by
    induction l with
    | nil => rfl
    | cons n l ih =>
      rw [List.map_cons, List.filterMap_cons, value_digit (hl n List.mem_cons_self),
        ih fun m hm => hl m (List.mem_cons_of_mem n hm)]
  have hpadding : (padding s).filterMap value = [] := by
    apply List.filterMap_eq_nil_iff.2
    intro c hc
    rw [List.eq_of_mem_replicate hc]
    decide +kernel
  rw [decode, encode, List.filterMap_append, hdigits _ (digits_lt s), hpadding, List.append_nil,
    bytes_digits]

theorem mem_encode {s : List UInt8} {c : Char} (h : c ∈ encode s) : c ∈ alphabet ∨ c = '=' := by
  rcases List.mem_append.1 h with h | h
  · obtain ⟨n, hn, rfl⟩ := List.mem_map.1 h
    have hlt : n < alphabet.length := digits_lt s n hn
    rw [digit, List.getD_eq_getElem?_getD, List.getElem?_eq_getElem hlt, Option.getD_some]
    exact .inl (List.getElem_mem hlt)
  · exact .inr (List.eq_of_mem_replicate h)

end Base64
