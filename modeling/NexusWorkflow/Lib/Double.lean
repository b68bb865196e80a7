import Mathlib

/-!
# Numbers of double precision

`fl` rounds a rational number to the nearest one with a significand of 53 bits, ties to even; the
exponents are not bounded.  It is monotone, and leaves alone what has a significand of 53 bits.
What an expression of sums and products evaluates to when each operation is rounded is near its
exact value, and is that value when all parts of it have 53 bits.
-/

namespace Double

/-- The nearest whole number, ties to even. -/
def roundEven (q : ℚ) : ℤ :=
  if q - ⌊q⌋ < 1 / 2 then ⌊q⌋
  else if 1 / 2 < q - ⌊q⌋ then ⌊q⌋ + 1
  else if ⌊q⌋ % 2 = 0 then ⌊q⌋
  else ⌊q⌋ + 1

theorem floor_le_roundEven (q : ℚ) : ⌊q⌋ ≤ roundEven q := by
  unfold roundEven
  split_ifs <;> omega

theorem roundEven_le (q : ℚ) : roundEven q ≤ ⌊q⌋ + 1 := by
  unfold roundEven
  split_ifs <;> omega

theorem roundEven_intCast (n : ℤ) : roundEven n = n := by
  unfold roundEven
  rw [Int.floor_intCast, sub_self, if_pos (by norm_num)]

theorem roundEven_mono {q q' : ℚ} (h : q ≤ q') : roundEven q ≤ roundEven q' := by
  rcases (Int.floor_mono h).lt_or_eq with hlt | heq
  · calc roundEven q ≤ ⌊q⌋ + 1 := roundEven_le q
      _ ≤ ⌊q'⌋ := hlt
      _ ≤ roundEven q' := floor_le_roundEven q'
  · -- between the same whole numbers
    unfold roundEven
    rw [heq]
    have hsub : q - ⌊q'⌋ ≤ q' - ⌊q'⌋ := sub_le_sub_right h _
    split_ifs <;> first | omega | linarith

/-- The distance of the numbers of double precision around this one. -/
def ulp (q : ℚ) : ℚ := 2 ^ (Int.log 2 q - 52)

theorem ulp_pos (q : ℚ) : 0 < ulp q := by
  unfold ulp
  positivity

/-- Of numbers that are not negative. -/
def magnitude (q : ℚ) : ℚ := roundEven (q / ulp q) * ulp q

def fl (q : ℚ) : ℚ := if q < 0 then -magnitude (-q) else magnitude q

variable {x y : ℚ}

theorem magnitude_zero : magnitude 0 = 0 := by
  have hround : roundEven 0 = 0 := roundEven_intCast 0
  rw [magnitude, zero_div, hround, Int.cast_zero, zero_mul]

theorem magnitude_nonneg (hx : 0 ≤ x) : 0 ≤ magnitude x := by
  have hround : 0 ≤ roundEven (x / ulp x) := by
    calc (0 : ℤ) = roundEven 0 := (roundEven_intCast 0).symm
      _ ≤ roundEven (x / ulp x) := roundEven_mono (div_nonneg hx (ulp_pos x).le)
  exact mul_nonneg (Int.cast_nonneg hround) (ulp_pos x).le

/-- What has 53 bits is left alone. -/
theorem magnitude_of_bits {m : ℕ} (hm : m < 2 ^ 53) (e : ℤ) :
    magnitude (m * 2 ^ e) = m * 2 ^ e := by
  rcases Nat.eq_zero_or_pos m with rfl | hpos
  · rw [Nat.cast_zero, zero_mul, magnitude_zero]
  · have hx : (0 : ℚ) < m * 2 ^ e := by positivity
    have hlt : (m * 2 ^ e : ℚ) < (2 : ℕ) ^ (53 + e) := by
      have hcast : (m : ℚ) < 2 ^ (53 : ℤ) := by exact_mod_cast hm
      rw [Nat.cast_ofNat, zpow_add₀ (by norm_num)]
      exact mul_lt_mul_of_pos_right hcast (by positivity)
    have hlog : Int.log 2 (m * 2 ^ e : ℚ) < 53 + e :=
        (Int.lt_zpow_iff_log_lt (by norm_num) hx).1 hlt
    obtain ⟨k, hk⟩ : ∃ k : ℕ, (k : ℤ) = e - (Int.log 2 (m * 2 ^ e : ℚ) - 52) :=
      ⟨(e - (Int.log 2 (m * 2 ^ e : ℚ) - 52)).toNat, Int.toNat_of_nonneg (by omega)⟩
    have hwhole : (m * 2 ^ e : ℚ) / ulp (m * 2 ^ e) = ((m * 2 ^ k : ℕ) : ℤ) := by
      rw [ulp, div_eq_iff (by positivity), Int.cast_natCast, Nat.cast_mul, Nat.cast_pow,
        Nat.cast_ofNat, mul_assoc,
        ← zpow_natCast, ← zpow_add₀ (by norm_num), hk, sub_add_cancel]
    rw [magnitude, hwhole, roundEven_intCast, ← hwhole, div_mul_cancel₀ _ (ulp_pos _).ne']

theorem magnitude_le (x : ℚ) : magnitude x ≤ 2 ^ (Int.log 2 x + 1) := by
  have hlt : x < 2 ^ (Int.log 2 x + 1) := by
    have hlog := Int.lt_zpow_succ_log_self (b := 2) (by norm_num) x
    rwa [Nat.cast_ofNat] at hlog
  have hulp : (2 : ℚ) ^ (Int.log 2 x + 1) = ((2 ^ 53 : ℤ) : ℚ) * ulp x := by
    rw [ulp, Int.cast_pow, Int.cast_ofNat, ← zpow_natCast, ← zpow_add₀ (by norm_num)]
    congr 1
    push_cast
    omega
  have hround : roundEven (x / ulp x) ≤ 2 ^ 53 := by
    calc roundEven (x / ulp x) ≤ roundEven ((2 ^ 53 : ℤ) : ℚ) := by
          refine roundEven_mono ((div_le_iff₀ (ulp_pos x)).2 ?_)
          rw [← hulp]
          exact hlt.le
      _ = 2 ^ 53 := roundEven_intCast _
  rw [hulp]
  exact mul_le_mul_of_nonneg_right (Int.cast_le.2 hround) (ulp_pos x).le

theorem le_magnitude (hx : 0 < x) : 2 ^ Int.log 2 x ≤ magnitude x := by
  have hle : (2 : ℚ) ^ Int.log 2 x ≤ x := by
    have hlog := Int.zpow_log_le_self (b := 2) (by norm_num) hx
    rwa [Nat.cast_ofNat] at hlog
  have hulp : (2 : ℚ) ^ Int.log 2 x = ((2 ^ 52 : ℤ) : ℚ) * ulp x := by
    rw [ulp, Int.cast_pow, Int.cast_ofNat, ← zpow_natCast, ← zpow_add₀ (by norm_num)]
    congr 1
    push_cast
    omega
  have hround : 2 ^ 52 ≤ roundEven (x / ulp x) := by
    calc 2 ^ 52 = roundEven ((2 ^ 52 : ℤ) : ℚ) := (roundEven_intCast _).symm
      _ ≤ roundEven (x / ulp x) := by
          refine roundEven_mono ((le_div_iff₀ (ulp_pos x)).2 ?_)
          rw [← hulp]
          exact hle
  rw [hulp]
  exact mul_le_mul_of_nonneg_right (Int.cast_le.2 hround) (ulp_pos x).le

theorem magnitude_mono (hx : 0 ≤ x) (h : x ≤ y) : magnitude x ≤ magnitude y := by
  rcases hx.eq_or_lt with rfl | hpos
  · rw [magnitude_zero]
    exact magnitude_nonneg h
  · have hlog : Int.log 2 x ≤ Int.log 2 y := Int.log_mono_right hpos h
    rcases hlog.lt_or_eq with hlt | heq
    · -- a power of two is between them
      calc magnitude x ≤ 2 ^ (Int.log 2 x + 1) := magnitude_le x
        _ ≤ 2 ^ Int.log 2 y := zpow_le_zpow_right₀ (by norm_num) hlt
        _ ≤ magnitude y := le_magnitude (hpos.trans_le h)
    · have hulp : ulp x = ulp y := by rw [ulp, ulp, heq]
      rw [magnitude, magnitude, hulp]
      refine mul_le_mul_of_nonneg_right (Int.cast_le.2 (roundEven_mono ?_)) (ulp_pos y).le
      exact div_le_div_of_nonneg_right h (ulp_pos y).le

theorem fl_mono (h : x ≤ y) : fl x ≤ fl y := by
  unfold fl
  split_ifs with hx hy hy
  · exact neg_le_neg (magnitude_mono (neg_nonneg.2 hy.le) (neg_le_neg h))
  · exact (neg_nonpos.2 (magnitude_nonneg (neg_nonneg.2 hx.le))).trans
      (magnitude_nonneg (not_lt.1 hy))
  · exact absurd (h.trans_lt hy) hx
  · exact magnitude_mono (not_lt.1 hx) h

theorem fl_nonneg (h : 0 ≤ x) : 0 ≤ fl x := by
  rw [fl, if_neg (not_lt.2 h)]
  exact magnitude_nonneg h

theorem fl_of_bits {m : ℕ} (hm : m < 2 ^ 53) (e : ℤ) : fl (m * 2 ^ e) = m * 2 ^ e := by
  rw [fl, if_neg (not_lt.2 (by positivity))]
  exact magnitude_of_bits hm e

theorem fl_natCast {n : ℕ} (hn : n < 2 ^ 53) : fl n = n := by
  have hbits := fl_of_bits hn 0
  rwa [zpow_zero, mul_one] at hbits

theorem fl_intCast {n : ℤ} (hn : n.natAbs < 2 ^ 53) : fl n = n := by
  rcases Int.natAbs_eq n with hpos | hneg
  · rw [hpos, Int.cast_natCast]
    exact fl_natCast hn
  · rcases Nat.eq_zero_or_pos n.natAbs with hzero | hpos
    · rw [Int.natAbs_eq_zero.1 hzero, Int.cast_zero, ← Nat.cast_zero]
      exact fl_natCast (by norm_num)
    · have hlt : -((n.natAbs : ℤ) : ℚ) < 0 := neg_lt_zero.2 (by exact_mod_cast hpos)
      have hbits := magnitude_of_bits hn 0
      rw [zpow_zero, mul_one] at hbits
      rw [hneg, Int.cast_neg, fl, if_pos hlt, neg_neg, Int.cast_natCast, hbits]

/-! ## The error -/

theorem abs_roundEven_sub_le (q : ℚ) : |(roundEven q : ℚ) - q| ≤ 1 / 2 := by
  have hfloor : (⌊q⌋ : ℚ) ≤ q := Int.floor_le q
  have hlt : q < ⌊q⌋ + 1 := Int.lt_floor_add_one q
  unfold roundEven
  rw [abs_le]
  split_ifs <;> push_cast <;> constructor <;> linarith

def roundoff : ℚ := 1 / 2 ^ 53

theorem roundoff_nonneg : 0 ≤ roundoff := by
  unfold roundoff
  positivity

theorem abs_magnitude_sub_le (hx : 0 ≤ x) : |magnitude x - x| ≤ roundoff * x := by
  rcases hx.eq_or_lt with rfl | hpos
  · rw [magnitude_zero, sub_zero, abs_zero, mul_zero]
  · have hscale : magnitude x - x = (roundEven (x / ulp x) - x / ulp x) * ulp x := by
      rw [magnitude, sub_mul, div_mul_cancel₀ _ (ulp_pos x).ne']
    have hulp : ulp x ≤ 2 * (roundoff * x) := by
      have hle : (2 : ℚ) ^ Int.log 2 x ≤ x := by
        have hlog := Int.zpow_log_le_self (b := 2) (by norm_num) hpos
        rwa [Nat.cast_ofNat] at hlog
      calc ulp x = 2 ^ Int.log 2 x * (2 * roundoff) := by
            rw [ulp, zpow_sub₀ (by norm_num), roundoff]
            norm_num
            ring
        _ ≤ x * (2 * roundoff) :=
          mul_le_mul_of_nonneg_right hle (mul_nonneg (by norm_num) roundoff_nonneg)
        _ = 2 * (roundoff * x) := by ring
    calc |magnitude x - x| = |(roundEven (x / ulp x) : ℚ) - x / ulp x| * ulp x := by
          rw [hscale, abs_mul, abs_of_pos (ulp_pos x)]
      _ ≤ 1 / 2 * ulp x := mul_le_mul_of_nonneg_right (abs_roundEven_sub_le _) (ulp_pos x).le
      _ ≤ roundoff * x := by linarith

theorem abs_fl_sub_le (x : ℚ) : |fl x - x| ≤ roundoff * |x| := by
  by_cases hx : x < 0
  · have hmagnitude := abs_magnitude_sub_le (neg_nonneg.2 hx.le)
    have hneg : -magnitude (-x) - x = -(magnitude (-x) - -x) := by ring
    rwa [fl, if_pos hx, abs_of_neg hx, hneg, abs_neg]
  · rw [fl, if_neg hx, abs_of_nonneg (not_lt.1 hx)]
    exact abs_magnitude_sub_le (not_lt.1 hx)

/-- How far, in relation to the exact value, that many roundings can lead. -/
def gamma (k : ℕ) : ℚ := (1 + roundoff) ^ k - 1

theorem gamma_mono {k l : ℕ} (h : k ≤ l) : gamma k ≤ gamma l :=
  sub_le_sub_right (pow_le_pow_right₀ (le_add_of_nonneg_right roundoff_nonneg) h) 1

def Near (k : ℕ) (x y : ℚ) : Prop := |y - x| ≤ gamma k * x

namespace Near

variable {k l : ℕ} {x' y' : ℚ}

theorem le (h : Near k x y) : y ≤ (1 + roundoff) ^ k * x := by
  have hupper := (abs_le.1 h).2
  unfold gamma at hupper
  linarith

theorem mono (hx : 0 ≤ x) (hkl : k ≤ l) (h : Near k x y) : Near l x y :=
  h.trans (mul_le_mul_of_nonneg_right (gamma_mono hkl) hx)

theorem rounded (hy : 0 ≤ y) (h : Near k x y) : Near (k + 1) x (fl y) := by
  have hround : |fl y - y| ≤ roundoff * ((1 + roundoff) ^ k * x) := by
    calc |fl y - y| ≤ roundoff * y := by simpa only [abs_of_nonneg hy] using abs_fl_sub_le y
      _ ≤ roundoff * ((1 + roundoff) ^ k * x) := mul_le_mul_of_nonneg_left h.le roundoff_nonneg
  calc |fl y - x| ≤ |fl y - y| + |y - x| := abs_sub_le _ _ _
    _ ≤ roundoff * ((1 + roundoff) ^ k * x) + gamma k * x := add_le_add hround h
    _ = gamma (k + 1) * x := by rw [gamma, gamma]; ring

theorem add (hx : 0 ≤ x) (hx' : 0 ≤ x') (h : Near k x y) (h' : Near l x' y') :
    Near (max k l) (x + x') (y + y') := by
  have hsplit : y + y' - (x + x') = (y - x) + (y' - x') := by ring
  calc |y + y' - (x + x')| ≤ |y - x| + |y' - x'| := by rw [hsplit]; exact abs_add_le _ _
    _ ≤ gamma (max k l) * x + gamma (max k l) * x' :=
        add_le_add (h.mono hx (le_max_left k l)) (h'.mono hx' (le_max_right k l))
    _ = gamma (max k l) * (x + x') := (mul_add _ _ _).symm

theorem mul (hx : 0 ≤ x) (hy' : 0 ≤ y') (h : Near k x y) (h' : Near l x' y') :
    Near (k + l) (x * x') (y * y') := by
  have hsplit : y * y' - x * x' = (y - x) * y' + x * (y' - x') := by ring
  have hgamma : 0 ≤ gamma k * x := (abs_nonneg _).trans h
  calc |y * y' - x * x'| ≤ |y - x| * y' + x * |y' - x'| := by
        rw [hsplit]
        refine (abs_add_le _ _).trans ?_
        rw [abs_mul, abs_mul, abs_of_nonneg hy', abs_of_nonneg hx]
    _ ≤ gamma k * x * ((1 + roundoff) ^ l * x') + x * (gamma l * x') :=
        add_le_add (mul_le_mul h h'.le hy' hgamma) (mul_le_mul_of_nonneg_left h' hx)
    _ = gamma (k + l) * (x * x') := by rw [gamma, gamma, gamma, pow_add]; ring

end Near

/-! ## Expressions -/

inductive Expr
  | number (q : ℚ≥0)
  | mul (a b : Expr)
  | add (a b : Expr)

namespace Expr

def exact : Expr → ℚ
  | number q => q
  | mul a b => a.exact * b.exact
  | add a b => a.exact + b.exact

def rounded : Expr → ℚ
  | number q => fl q
  | mul a b => fl (a.rounded * b.rounded)
  | add a b => fl (a.rounded + b.rounded)

/-- The roundings that a part of the value goes through. -/
def roundings : Expr → ℕ
  | number _ => 1
  | mul a b => a.roundings + b.roundings + 1
  | add a b => max a.roundings b.roundings + 1

theorem exact_nonneg (e : Expr) : 0 ≤ e.exact := by
  induction e with
  | number q => exact q.2
  | mul a b iha ihb => exact mul_nonneg iha ihb
  | add a b iha ihb => exact add_nonneg iha ihb

theorem rounded_nonneg (e : Expr) : 0 ≤ e.rounded := by
  induction e with
  | number q => exact fl_nonneg q.2
  | mul a b iha ihb => exact fl_nonneg (mul_nonneg iha ihb)
  | add a b iha ihb => exact fl_nonneg (add_nonneg iha ihb)

theorem rounded_near (e : Expr) : Near e.roundings e.exact e.rounded := by
  induction e with
  | number q =>
    have hself : Near 0 (q : ℚ) q := by
      unfold Near gamma
      rw [sub_self, abs_zero, pow_zero, sub_self, zero_mul]
    exact hself.rounded q.2
  | mul a b iha ihb =>
    exact (iha.mul a.exact_nonneg b.rounded_nonneg ihb).rounded
      (mul_nonneg a.rounded_nonneg b.rounded_nonneg)
  | add a b iha ihb =>
    exact (iha.add a.exact_nonneg b.exact_nonneg ihb).rounded
      (add_nonneg a.rounded_nonneg b.rounded_nonneg)

/-- It is a whole number, and nothing is lost in its evaluation. -/
structure Counts (e : Expr) (n : ℕ) : Prop where
  rounded : e.rounded = n
  exact : e.exact = n

namespace Counts

variable {a b : Expr} {m n : ℕ}

theorem number (hn : n < 2 ^ 53) : Counts (.number n) n where
  rounded := by
    rw [Expr.rounded, NNRat.coe_natCast]
    exact fl_natCast hn
  exact := NNRat.coe_natCast n

theorem mul (ha : a.Counts m) (hb : b.Counts n) (h : m * n < 2 ^ 53) :
    Counts (.mul a b) (m * n) where
  rounded := by
    rw [Expr.rounded, ha.rounded, hb.rounded, ← Nat.cast_mul]
    exact fl_natCast h
  exact := by rw [Expr.exact, ha.exact, hb.exact, Nat.cast_mul]

theorem add (ha : a.Counts m) (hb : b.Counts n) (h : m + n < 2 ^ 53) :
    Counts (.add a b) (m + n) where
  rounded := by
    rw [Expr.rounded, ha.rounded, hb.rounded, ← Nat.cast_add]
    exact fl_natCast h
  exact := by rw [Expr.exact, ha.exact, hb.exact, Nat.cast_add]

end Counts

/-- The product with whole numbers, one after the other. -/
def scale (e : Expr) (factors : List ℕ) : Expr :=
  factors.foldl (fun e (f : ℕ) => .mul e (.number f)) e

theorem exact_scale (e : Expr) (factors : List ℕ) :
    (e.scale factors).exact = e.exact * factors.prod := by
  induction factors generalizing e with
  | nil => rw [List.prod_nil, Nat.cast_one, mul_one]; rfl
  | cons f factors ih =>
    rw [scale, List.foldl_cons, ← scale, ih, exact, exact, NNRat.coe_natCast, List.prod_cons,
      Nat.cast_mul, mul_assoc]

theorem rounded_scale (e : Expr) {factors : List ℕ} (h : ∀ f ∈ factors, f < 2 ^ 53) :
    (e.scale factors).rounded = factors.foldl (fun x (f : ℕ) => fl (x * f)) e.rounded := by
  induction factors generalizing e with
  | nil => rfl
  | cons f factors ih =>
    obtain ⟨hf, hfactors⟩ := List.forall_mem_cons.1 h
    rw [scale, List.foldl_cons, ← scale, ih _ hfactors, rounded, rounded, NNRat.coe_natCast,
      fl_natCast hf,
      List.foldl_cons]

theorem Counts.scale {e : Expr} {n : ℕ} (he : e.Counts n) (factors : List ℕ)
    (hpos : ∀ f ∈ factors, 0 < f) (hfactors : factors.prod < 2 ^ 53)
    (hlt : n * factors.prod < 2 ^ 53) : (e.scale factors).Counts (n * factors.prod) := by
  induction factors generalizing e n with
  | nil => rwa [List.prod_nil, mul_one]
  | cons f factors ih =>
    have hpos' : ∀ f ∈ factors, 0 < f := fun f hf => hpos f (List.mem_cons_of_mem _ hf)
    have hprod : 0 < factors.prod := List.prod_pos hpos'
    rw [List.prod_cons] at hfactors hlt ⊢
    rw [← mul_assoc] at hlt ⊢
    have hf : f < 2 ^ 53 := (Nat.le_mul_of_pos_right f hprod).trans_lt hfactors
    have hnf : n * f < 2 ^ 53 := (Nat.le_mul_of_pos_right (n * f) hprod).trans_lt hlt
    refine ih (he.mul (.number hf) hnf) hpos' ?_ hlt
    exact (Nat.le_mul_of_pos_left _ (hpos f List.mem_cons_self)).trans_lt hfactors

theorem Counts.scaled {n : ℕ} (factors : List ℕ) (hpos : ∀ f ∈ factors, 0 < f)
    (hfactors : factors.prod < 2 ^ 53) (hlt : n * factors.prod < 2 ^ 53) :
    ((Expr.number n).scale factors).Counts (n * factors.prod) :=
  (Counts.number ((Nat.le_mul_of_pos_right n (List.prod_pos hpos)).trans_lt hlt)).scale factors hpos
    hfactors hlt

end Expr

end Double
