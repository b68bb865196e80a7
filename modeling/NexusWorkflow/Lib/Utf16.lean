import Mathlib

/-!
# UTF-16

A text of JavaScript is a list of UTF-16 units in which a surrogate may stand alone.  `decode` is
what its code points are when every lone surrogate is replaced, as an encoder to UTF-8 does it; no
two texts without one decode to the same.
-/

namespace Utf16

def isHigh (u : UInt16) : Bool := 0xD800 ≤ u.toNat ∧ u.toNat < 0xDC00

def isLow (u : UInt16) : Bool := 0xDC00 ≤ u.toNat ∧ u.toNat < 0xE000

/-- U+FFFD for a surrogate. -/
def single (u : UInt16) : Char := if isHigh u ∨ isLow u then '\uFFFD' else Char.ofNat u.toNat

def pair (high low : UInt16) : Char :=
  Char.ofNat (0x10000 + (high.toNat - 0xD800) * 0x400 + (low.toNat - 0xDC00))

/-- One character for each code point. -/
def decode : List UInt16 → List Char
  | [] => []
  | [u] => [single u]
  | u :: v :: rest =>
      if isHigh u ∧ isLow v then pair u v :: decode rest else single u :: decode (v :: rest)

/-- No surrogate stands alone. -/
def wellFormed : List UInt16 → Bool
  | [] => true
  | [u] => !isHigh u && !isLow u
  | u :: v :: rest =>
      if isHigh u ∧ isLow v then wellFormed rest
      else !isHigh u && !isLow u && wellFormed (v :: rest)

def units (c : Char) : List UInt16 :=
  if c.toNat < 0x10000 then [UInt16.ofNat c.toNat]
  else [UInt16.ofNat (0xD800 + (c.toNat - 0x10000) / 0x400),
    UInt16.ofNat (0xDC00 + (c.toNat - 0x10000) % 0x400)]

theorem toNat_ofNat {n : Nat} (h : n < 0xD800 ∨ 0xDFFF < n ∧ n < 0x110000) :
    (Char.ofNat n).toNat = n := by
  rw [Char.ofNat, dif_pos h]
  rfl

theorem units_single {u : UInt16} (h : (!isHigh u && !isLow u) = true) :
    units (single u) = [u] := by
  have hlt := u.toNat_lt
  simp only [Bool.and_eq_true, Bool.not_eq_true', isHigh, isLow, decide_eq_false_iff_not] at h
  have hnot : ¬ (isHigh u = true ∨ isLow u = true) := by
    simp only [isHigh, isLow, decide_eq_true_eq]
    omega
  have hnat : (single u).toNat = u.toNat := by
    rw [single, if_neg hnot]
    apply toNat_ofNat
    omega
  rw [units, hnat, if_pos hlt, UInt16.ofNat_toNat]

theorem units_pair {high low : UInt16} (h : isHigh high = true ∧ isLow low = true) :
    units (pair high low) = [high, low] := by
  simp only [isHigh, isLow, decide_eq_true_eq] at h
  have hnat : (pair high low).toNat =
      0x10000 + (high.toNat - 0xD800) * 0x400 + (low.toNat - 0xDC00) := by
    apply toNat_ofNat
    omega
  have hhigh : 0xD800 + ((pair high low).toNat - 0x10000) / 0x400 = high.toNat := by omega
  have hlow : 0xDC00 + ((pair high low).toNat - 0x10000) % 0x400 = low.toNat := by omega
  rw [units, if_neg (by omega), hhigh, hlow, UInt16.ofNat_toNat, UInt16.ofNat_toNat]

theorem encode_decode {s : List UInt16} (h : wellFormed s = true) :
    (decode s).flatMap units = s := by
  induction s using decode.induct with
  | case1 => rfl
  | case2 u =>
    rw [decode, List.flatMap_cons, units_single h]
    rfl
  | case3 u v rest hpair ih =>
    rw [wellFormed, if_pos hpair] at h
    rw [decode, if_pos hpair, List.flatMap_cons, units_pair hpair, ih h]
    rfl
  | case4 u v rest hpair ih =>
    rw [wellFormed, if_neg hpair, Bool.and_eq_true] at h
    rw [decode, if_neg hpair, List.flatMap_cons, units_single h.1, ih h.2]
    rfl

/-- Two texts without a lone surrogate that decode to the same are the same. -/
theorem decode_injective {s t : List UInt16} (hs : wellFormed s = true) (ht : wellFormed t = true)
    (h : decode s = decode t) : s = t := by
  rw [← encode_decode hs, ← encode_decode ht, h]

/-- The bytes of a text in UTF-8. -/
def utf8 (s : List UInt16) : List UInt8 := (decode s).flatMap String.utf8EncodeChar

theorem utf8_eq_iff {s t : List UInt16} : utf8 s = utf8 t ↔ decode s = decode t := by
  constructor
  · intro h
    have hbytes : (String.ofList (decode s)).toByteArray = (String.ofList (decode t)).toByteArray :=
      congrArg List.toByteArray h
    exact String.ofList_injective (String.toByteArray_inj.1 hbytes)
  · intro h
    rw [utf8, utf8, h]

end Utf16
