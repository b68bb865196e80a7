import NexusWorkflow.Model.TimerExpression

/-!
# What a timer expression stands for

The texts of durations, the match of the pattern against them, and the length of a duration next to
what the code adds to the base instant.  The pattern also matches a `P`, or a `T`, without a
component behind it, and the end of a long duration is an invalid date.
-/

namespace NexusWorkflow.TimerExpression

open Double

/-! ## The text of a duration -/

def unitText (unit : Char) (n : Option Digits) : List Char := n.elim [] fun n => n.val ++ [unit]

def secondsText : Option (Digits × Option Digits) → List Char
  | none => []
  | some (n, none) => n.val ++ ['S']
  | some (n, some fraction) => n.val ++ '.' :: (fraction.val ++ ['S'])

def TimePart.text (t : TimePart) : List Char :=
  unitText 'H' t.hours ++ (unitText 'M' t.minutes ++ secondsText t.seconds)

def timeText (t : Option TimePart) : List Char := t.elim [] fun t => 'T' :: t.text

def Match.text (m : Match) : List Char :=
  'P' :: (unitText 'Y' m.years ++ (unitText 'M' m.months ++
    (unitText 'W' m.weeks ++ (unitText 'D' m.days ++ timeText m.time))))

/-! ## The match -/

variable {s rest : List Char} {u v : Char}

theorem digits_append (n : Digits) (hu : u.isDigit = false) (rest : List Char) :
    digits (n.val ++ u :: rest) = some (n, u :: rest) := by
  have hu' : ¬u.isDigit = true := Bool.eq_false_iff.1 hu
  have htake : (n.val ++ u :: rest).takeWhile Char.isDigit = n.val := by
    rw [List.takeWhile_append_of_pos n.2.2, List.takeWhile_cons_of_neg hu', List.append_nil]
  have hdrop : (n.val ++ u :: rest).dropWhile Char.isDigit = u :: rest := by
    rw [List.dropWhile_append_of_pos n.2.2, List.dropWhile_cons_of_neg hu']
  unfold digits
  rw [dif_pos (by rw [htake]; exact n.2.1)]
  simp only [htake, hdrop]

theorem digits_text {n : Digits} (h : digits s = some (n, rest)) : n.val ++ rest = s := by
  unfold digits at h
  split_ifs at h
  simp only [Option.some.injEq, Prod.mk.injEq] at h
  rw [← h.1, ← h.2]
  exact List.takeWhile_append_dropWhile

theorem digits_of_not_digit (hu : u.isDigit = false) : digits (u :: s) = none := by
  unfold digits
  rw [dif_neg]
  rw [List.takeWhile_cons_of_neg (Bool.eq_false_iff.1 hu)]
  exact not_not.2 rfl

/-- What stands after the digits that the text starts with. -/
def nextUnit (s : List Char) : Option Char := (digits s).bind fun n => n.2.head?

theorem nextUnit_digits (n : Digits) (hu : u.isDigit = false) :
    nextUnit (n.val ++ u :: rest) = some u := by
  unfold nextUnit
  rw [digits_append n hu]
  rfl

theorem nextUnit_unitText (n : Option Digits) (hu : u.isDigit = false) (huv : u ≠ v)
    (h : nextUnit rest ≠ some v) : nextUnit (unitText u n ++ rest) ≠ some v := by
  cases n with
  | none => exact h
  | some n =>
    rw [unitText, Option.elim_some, List.append_assoc, List.singleton_append, nextUnit_digits n hu]
    exact fun heq => huv (Option.some.inj heq)

theorem nextUnit_secondsText (n : Option (Digits × Option Digits)) (hS : v ≠ 'S')
    (hpoint : v ≠ '.') : nextUnit (secondsText n) ≠ some v := by
  match n with
  | none => exact fun heq => nomatch heq
  | some (n, none) =>
    rw [secondsText, nextUnit_digits n (by decide)]
    exact fun heq => hS (Option.some.inj heq).symm
  | some (n, some fraction) =>
    rw [secondsText, nextUnit_digits n (by decide)]
    exact fun heq => hpoint (Option.some.inj heq).symm

theorem nextUnit_timeText (t : Option TimePart) : nextUnit (timeText t) = none := by
  cases t with
  | none => rfl
  | some t =>
    rw [nextUnit, timeText, Option.elim_some, digits_of_not_digit (by decide)]
    rfl

theorem component_text (u : Char) (s : List Char) :
    unitText u (component u s).1 ++ (component u s).2 = s := by
  unfold component
  split
  · rename_i n u' rest hdigits
    split_ifs with hu
    · rw [unitText, Option.elim_some, List.append_assoc, List.singleton_append, ← hu]
      exact digits_text hdigits
    · rfl
  · rfl

theorem component_unitText {n : Option Digits} (hu : u.isDigit = false)
    (h : nextUnit rest ≠ some u) : component u (unitText u n ++ rest) = (n, rest) := by
  cases n with
  | some n =>
    rw [unitText, Option.elim_some, List.append_assoc, List.singleton_append, component,
      digits_append n hu]
    exact if_pos rfl
  | none =>
    change component u rest = (none, rest)
    unfold component
    split
    · rename_i n u' rest' hdigits
      rw [if_neg]
      intro heq
      apply h
      rw [nextUnit, hdigits, heq]
      rfl
    · rfl

theorem secondsComponent_text (s : List Char) :
    secondsText (secondsComponent s).1 ++ (secondsComponent s).2 = s := by
  unfold secondsComponent
  split
  · rename_i n rest hdigits
    rw [secondsText, List.append_assoc, List.singleton_append]
    exact digits_text hdigits
  · rename_i n s' hdigits
    split
    · rename_i fraction rest hfraction
      rw [secondsText, List.append_assoc, List.cons_append, List.append_assoc,
        List.singleton_append,
        digits_text hfraction]
      exact digits_text hdigits
    · rfl
  · rfl

theorem secondsComponent_secondsText (n : Option (Digits × Option Digits)) :
    secondsComponent (secondsText n) = (n, []) := by
  match n with
  | none => rfl
  | some (n, none) =>
    unfold secondsText secondsComponent
    rw [digits_append n (by decide)]
    rfl
  | some (n, some fraction) =>
    unfold secondsText secondsComponent
    rw [digits_append n (by decide)]
    simp only [digits_append fraction (show 'S'.isDigit = false by decide)]

theorem timePart_eq_some {t : Option TimePart} : timePart s = some t ↔ timeText t = s := by
  constructor
  · intro h
    unfold timePart at h
    split at h
    · rw [← Option.some.inj h]
      rfl
    · rename_i s
      simp only at h
      split_ifs at h with hrest
      rw [← Option.some.inj h, timeText, Option.elim_some, TimePart.text]
      have hseconds := secondsComponent_text (component 'M' (component 'H' s).2).2
      rw [hrest, List.append_nil] at hseconds
      simp only [hseconds, component_text]
    · exact absurd h (by simp)
  · rintro rfl
    cases t with
    | none => rfl
    | some t =>
      have hminutes : nextUnit (unitText 'M' t.minutes ++ secondsText t.seconds) ≠ some 'H' :=
        nextUnit_unitText _ (by decide) (by decide) (nextUnit_secondsText _ (by decide) (by decide))
      have hseconds : nextUnit (secondsText t.seconds) ≠ some 'M' :=
          nextUnit_secondsText _ (by decide) (by decide)
      rw [timeText, Option.elim_some, TimePart.text, timePart]
      simp only [component_unitText (show 'H'.isDigit = false by decide) hminutes,
        component_unitText (show 'M'.isDigit = false by decide) hseconds,
          secondsComponent_secondsText, if_true]

/-- The pattern matches the texts of its matches, and those only. -/
theorem matchDuration_eq_some {m : Match} : matchDuration s = some m ↔ m.text = s := by
  constructor
  · intro h
    unfold matchDuration at h
    split at h
    · rename_i s
      simp only [Option.map_eq_some_iff] at h
      obtain ⟨t, ht, rfl⟩ := h
      simp only [Match.text, timePart_eq_some.1 ht, component_text]
    · exact absurd h (by simp)
  · rintro rfl
    have htime : ∀ v, nextUnit (timeText m.time) ≠ some v := fun v => by
      rw [nextUnit_timeText]
      exact fun heq => nomatch heq
    have hdays : ∀ v, 'D' ≠ v → nextUnit (unitText 'D' m.days ++ timeText m.time) ≠ some v :=
      fun v hv => nextUnit_unitText _ (by decide) hv (htime v)
    have hweeks : ∀ v, 'D' ≠ v → 'W' ≠ v →
        nextUnit (unitText 'W' m.weeks ++ (unitText 'D' m.days ++ timeText m.time)) ≠ some v :=
      fun v hv hv' => nextUnit_unitText _ (by decide) hv' (hdays v hv)
    have hmonths : nextUnit (unitText 'M' m.months ++
        (unitText 'W' m.weeks ++ (unitText 'D' m.days ++ timeText m.time))) ≠ some 'Y' :=
      nextUnit_unitText _ (by decide) (by decide) (hweeks _ (by decide) (by decide))
    rw [Match.text, matchDuration]
    simp only [component_unitText (show 'Y'.isDigit = false by decide) hmonths,
      component_unitText (show 'M'.isDigit = false by decide) (hweeks 'M' (by decide) (by decide)),
      component_unitText (show 'W'.isDigit = false by decide) (hdays 'W' (by decide)),
      component_unitText (show 'D'.isDigit = false by decide) (htime 'D'), timePart_eq_some.2 rfl,
        Option.map_some]

theorem text_injective {m m' : Match} (h : m.text = m'.text) : m = m' := by
  have hmatch := matchDuration_eq_some.2 h
  rw [matchDuration_eq_some.2 rfl] at hmatch
  exact (Option.some.inj hmatch).symm

theorem digits_year (h : startsWithYear s = true) : matchDuration s = none := by
  cases s with
  | nil => rfl
  | cons c s =>
    unfold matchDuration
    split
    · rename_i s' heq
      injection heq with hc
      rw [hc] at h
      exact absurd h (by simp [startsWithYear, show 'P'.isDigit = false by decide])
    · rfl

/-- A date-time, or the text of a duration: nothing else is accepted, and no text is both. -/
theorem parseTimerExpression_eq_ok_iff (readDate : String → Date) (expr : String) (now : Instant)
    (date : Date) : parseTimerExpression readDate expr now = .ok date ↔
      (startsWithYear (Text.trim expr.toList) = true ∧ date.isSome = true ∧
        readDate (String.ofList (Text.trim expr.toList)) = date) ∨
      ∃ m : Match, m.text = Text.trim expr.toList ∧ Date.of (plus now.val m.deltaMs) = date := by
  unfold parseTimerExpression
  generalize Text.trim expr.toList = trimmed
  simp only
  by_cases hyear : startsWithYear trimmed = true
  · have hnot : ∀ m : Match, m.text ≠ trimmed := fun m hm => by
      have hmatch := matchDuration_eq_some.2 hm
      rw [digits_year hyear] at hmatch
      exact nomatch hmatch
    rw [if_pos hyear]
    cases hread : readDate (String.ofList trimmed) with
    | some t =>
      constructor
      · intro h
        exact .inl ⟨hyear, by rw [← Except.ok.inj h]; rfl, Except.ok.inj h⟩
      · rintro (⟨-, -, hdate⟩ | ⟨m, hm, -⟩)
        · rw [← hdate]
        · exact absurd hm (hnot m)
    | none =>
      simp only [digits_year hyear]
      constructor
      · exact fun h => nomatch h
      · rintro (⟨-, hsome, hdate⟩ | ⟨m, hm, -⟩)
        · rw [← hdate] at hsome
          exact nomatch hsome
        · exact absurd hm (hnot m)
  · rw [if_neg hyear]
    cases hmatch : matchDuration trimmed with
    | some m =>
      have hm := matchDuration_eq_some.1 hmatch
      constructor
      · intro h
        exact .inr ⟨m, hm, Except.ok.inj h⟩
      · rintro (⟨hyear', -⟩ | ⟨m', hm', hdate⟩)
        · exact absurd hyear' hyear
        · rw [← hdate, text_injective (hm.trans hm'.symm)]
    | none =>
      constructor
      · exact fun h => nomatch h
      · rintro (⟨hyear', -⟩ | ⟨m, hm, -⟩)
        · exact absurd hyear' hyear
        · rw [matchDuration_eq_some.2 hm] at hmatch
          exact nomatch hmatch

/-! ## The length of a duration -/

def count (n : Option Digits) : ℕ := n.elim 0 fun n => Nat.ofDigitChars 10 n.val 0

theorem decimal_nonneg (n : Digits × Option Digits) : 0 ≤ decimal n := by
  match n with
  | (_, none) => exact Nat.cast_nonneg _
  | (_, some _) =>
    exact add_nonneg (Nat.cast_nonneg _) (div_nonneg (Nat.cast_nonneg _) (by positivity))

def secondsCount (n : Option (Digits × Option Digits)) : ℚ≥0 :=
  ⟨n.elim 0 decimal, by cases n with
    | none => exact le_refl _
    | some n => exact decimal_nonneg n⟩

namespace Match

variable (m : Match)

/-- In milliseconds; a year has 365.25 days and a month 30.44. -/
def length : ℚ :=
  count m.years * 31557600000 + count m.months * 2630016000 + count m.weeks * 604800000 +
    count m.days * 86400000 + count m.hours * 3600000 + count m.minutes * 60000 +
      secondsCount m.seconds * 1000

/-- What the code evaluates. -/
def sum : Expr :=
  .add (.add (.add (.add (.add (.add
    ((Expr.mul (.number (count m.years)) (.number (36525 / 100))).scale [24, 3600, 1000])
    ((Expr.mul (.number (count m.months)) (.number (3044 / 100))).scale [24, 3600, 1000]))
    ((Expr.number (count m.weeks)).scale [7, 24, 3600, 1000]))
    ((Expr.number (count m.days)).scale [24, 3600, 1000]))
    ((Expr.number (count m.hours)).scale [3600, 1000]))
    ((Expr.number (count m.minutes)).scale [60, 1000]))
    ((Expr.number (secondsCount m.seconds)).scale [1000])

theorem exact_sum : m.sum.exact = m.length := by
  simp only [sum, length, Expr.exact, Expr.exact_scale, List.prod_cons, List.prod_nil]
  push_cast
  ring

end Match

theorem number_eq (n : Option Digits) : number n = (Expr.number (count n)).rounded := by
  rw [Expr.rounded, NNRat.coe_natCast]
  cases n with
  | none => simp only [number, count, Option.elim_none, Nat.cast_zero]
  | some n => rfl

theorem deltaMs_eq (m : Match) : m.deltaMs = m.sum.rounded := by
  have hscale : ∀ (e : Expr) (factors : List ℕ), (∀ f ∈ factors, f < 2 ^ 53) →
      (e.scale factors).rounded = factors.foldl (fun x (f : ℕ) => times x f) e.rounded :=
    fun e factors h => e.rounded_scale h
  have hseconds : secondsNumber m.seconds = (Expr.number (secondsCount m.seconds)).rounded := rfl
  have hadd : ∀ a b : Expr, (a.add b).rounded = plus a.rounded b.rounded := fun _ _ => rfl
  have hmul : ∀ (a : Expr) (q : ℚ≥0), (a.mul (.number q)).rounded = times a.rounded (fl q) :=
      fun _ _ => rfl
  unfold Match.deltaMs Match.sum
  simp only [number_eq, hseconds, hadd, hscale _ [24, 3600, 1000] (by decide),
    hscale _ [7, 24, 3600, 1000] (by decide), hscale _ [3600, 1000] (by decide),
      hscale _ [60, 1000] (by decide),
    hscale _ [1000] (by decide), hmul, List.foldl_cons, List.foldl_nil]
  push_cast
  rfl

/-! ## The end of a duration -/

theorem trunc_intCast (n : ℤ) : trunc n = n := by
  unfold trunc
  split_ifs
  · exact Int.floor_intCast n
  · exact Int.ceil_intCast n

theorem trunc_mono {q q' : ℚ} (h : q ≤ q') : trunc q ≤ trunc q' := by
  unfold trunc
  split_ifs with hq hq' hq'
  · exact Int.floor_mono h
  · exact absurd (hq.trans h) hq'
  · exact (Int.ceil_le.2 (by rw [Int.cast_zero]; exact (not_le.1 hq).le)).trans
      (Int.floor_nonneg.2 hq')
  · exact Int.ceil_mono h

theorem abs_trunc_sub_le (q : ℚ) : |(trunc q : ℚ) - q| ≤ 1 := by
  unfold trunc
  rw [abs_le]
  split_ifs
  · have hle := Int.floor_le q
    have hlt := Int.lt_floor_add_one q
    constructor <;> linarith
  · have hle := Int.le_ceil q
    have hlt := Int.ceil_lt_add_one q
    constructor <;> linarith

theorem Date.of_eq_some_iff {q : ℚ} {t : Instant} : Date.of q = some t ↔
    |q| ≤ maxTime ∧ trunc q = t.val := by
  unfold Date.of
  split_ifs with h
  · simp only [Option.some.injEq, h, true_and, Subtype.ext_iff]
  · simp only [h, false_and]

/-- The times of dates are numbers of double precision. -/
theorem fl_instant (t : Instant) : fl t.val = t.val := by
  refine fl_intCast ?_
  obtain ⟨hlower, hupper⟩ := abs_le.1 t.2
  unfold maxTime at hlower hupper
  omega

namespace Match

variable {m m' : Match}

theorem deltaMs_nonneg (m : Match) : 0 ≤ m.deltaMs := by
  rw [deltaMs_eq]
  exact m.sum.rounded_nonneg

theorem length_nonneg (m : Match) : 0 ≤ m.length := by
  rw [← exact_sum]
  exact m.sum.exact_nonneg

theorem deltaMs_near (m : Match) : Near 15 m.length m.deltaMs := by
  have hnear := m.sum.rounded_near
  rw [deltaMs_eq, ← exact_sum]
  exact hnear

/-- No component of the first is larger than that of the second. -/
structure Le (m m' : Match) : Prop where
  years : count m.years ≤ count m'.years
  months : count m.months ≤ count m'.months
  weeks : count m.weeks ≤ count m'.weeks
  days : count m.days ≤ count m'.days
  hours : count m.hours ≤ count m'.hours
  minutes : count m.minutes ≤ count m'.minutes
  seconds : secondsCount m.seconds ≤ secondsCount m'.seconds

theorem Le.deltaMs (h : m.Le m') : m.deltaMs ≤ m'.deltaMs := by
  have hnumber : ∀ {n n' : Option Digits}, count n ≤ count n' → number n ≤ number n' :=
      fun {n n'} hn => by
    rw [number_eq, number_eq, Expr.rounded, Expr.rounded, NNRat.coe_natCast, NNRat.coe_natCast]
    exact fl_mono (Nat.cast_le.2 hn)
  have hseconds : secondsNumber m.seconds ≤ secondsNumber m'.seconds := fl_mono h.seconds
  have htimes : ∀ {x x' : ℚ} (z : ℚ), 0 ≤ z → x ≤ x' → times x z ≤ times x' z :=
    fun z hz hx => fl_mono (mul_le_mul_of_nonneg_right hx hz)
  have hplus : ∀ {x x' y y' : ℚ}, x ≤ x' → y ≤ y' → plus x y ≤ plus x' y' :=
    fun hx hy => fl_mono (add_le_add hx hy)
  have hyear : 0 ≤ fl (36525 / 100) := fl_nonneg (by norm_num)
  have hmonth : 0 ≤ fl (3044 / 100) := fl_nonneg (by norm_num)
  unfold Match.deltaMs
  refine hplus (hplus (hplus (hplus (hplus (hplus ?_ ?_) ?_) ?_) ?_) ?_) ?_
  · exact htimes _ (by norm_num)
      (htimes _ (by norm_num) (htimes _ (by norm_num) (htimes _ hyear (hnumber h.years))))
  · exact htimes _ (by norm_num)
      (htimes _ (by norm_num) (htimes _ (by norm_num) (htimes _ hmonth (hnumber h.months))))
  · exact htimes _ (by norm_num)
      (htimes _ (by norm_num) (htimes _ (by norm_num) (htimes _ (by norm_num) (hnumber h.weeks))))
  · exact htimes _ (by norm_num) (htimes _ (by norm_num) (htimes _ (by norm_num) (hnumber h.days)))
  · exact htimes _ (by norm_num) (htimes _ (by norm_num) (hnumber h.hours))
  · exact htimes _ (by norm_num) (htimes _ (by norm_num) (hnumber h.minutes))
  · exact htimes _ (by norm_num) hseconds

/-- No month and no fraction of a second, and not so long that numbers of double precision leave
gaps. -/
structure Whole (m : Match) : Prop where
  months : count m.months = 0
  seconds : ∃ n : ℕ, secondsCount m.seconds = n
  bound : m.length < 2 ^ 53

/-- Years are whole once they are counted in hours. -/
theorem countsYears {y : ℕ} (hy : y * 31557600000 < 2 ^ 53) :
    Expr.Counts ((Expr.mul (.number y) (.number (36525 / 100))).scale [24, 3600, 1000])
      (y * 31557600000) := by
  have hle : ∀ k ≤ 31557600000, y * k < 2 ^ 53 := fun k hk => (Nat.mul_le_mul_left y hk).trans_lt hy
  have hquarters : ((y : ℚ) * (36525 / 100)) = (1461 * y : ℕ) * 2 ^ (-2 : ℤ) := by
    push_cast
    norm_num
    ring
  have hratio : ((36525 / 100 : ℚ≥0) : ℚ) = (1461 : ℕ) * 2 ^ (-2 : ℤ) := by
    push_cast
    norm_num
  have hround : (Expr.mul (.number y) (.number (36525 / 100))).rounded = y * (36525 / 100) := by
    rw [Expr.rounded, Expr.rounded, Expr.rounded, NNRat.coe_natCast,
      fl_natCast (mul_one y ▸ hle 1 (by norm_num)), hratio,
      fl_of_bits (by norm_num), ← hratio]
    push_cast
    rw [hquarters, fl_of_bits (by rw [mul_comm]; exact hle 1461 (by norm_num))]
  have hhours : Expr.Counts ((Expr.mul (.number y) (.number (36525 / 100))).mul (.number (24 : ℕ)))
      (y * 8766) := by
    constructor
    · rw [Expr.rounded, hround, Expr.rounded, NNRat.coe_natCast, fl_natCast (by norm_num),
        show (y : ℚ) * (36525 / 100) * (24 : ℕ) = (y * 8766 : ℕ) by push_cast; ring]
      exact fl_natCast (hle 8766 (by norm_num))
    · simp only [Expr.exact, NNRat.coe_natCast]
      push_cast
      ring
  have hmilliseconds := hhours.scale [3600, 1000] (by decide) (by decide) (by
    rw [mul_assoc]
    exact hy)
  rwa [mul_assoc] at hmilliseconds

theorem countsMonths {n : ℕ} (hn : n = 0) :
    Expr.Counts ((Expr.mul (.number n) (.number (3044 / 100))).scale [24, 3600, 1000]) 0 := by
  have hzero : fl 0 = 0 := fl_natCast (n := 0) (by norm_num)
  have hproduct : Expr.Counts (Expr.mul (.number n) (.number (3044 / 100))) 0 := by
    constructor
    · simp only [Expr.rounded, hn, Nat.cast_zero, NNRat.cast_zero, hzero, zero_mul]
    · simp only [Expr.exact, hn, Nat.cast_zero, NNRat.cast_zero, zero_mul]
  exact hproduct.scale [24, 3600, 1000] (by decide) (by decide) (by decide)

theorem partial_sums_lt {a b c e f g bound : ℕ} (h : a + b + c + e + f + g < bound) :
    (a < bound ∧ b < bound ∧ c < bound ∧ e < bound ∧ f < bound ∧ g < bound) ∧ a + 0 < bound ∧
    a + 0 + b < bound ∧
      a + 0 + b + c < bound ∧ a + 0 + b + c + e < bound ∧ a + 0 + b + c + e + f < bound ∧
      a + 0 + b + c + e + f + g < bound := by
  omega

theorem Whole.sum (h : m.Whole) : ∃ n : ℕ, m.sum.Counts n := by
  obtain ⟨seconds, hseconds⟩ := h.seconds
  have hlength :
      ((count m.years * 31557600000 + count m.weeks * 604800000 + count m.days * 86400000 +
      count m.hours * 3600000 + count m.minutes * 60000 + seconds * 1000 : ℕ) : ℚ) = m.length := by
    rw [length, h.months, hseconds]
    push_cast
    ring
  have hlt : count m.years * 31557600000 + count m.weeks * 604800000 + count m.days * 86400000 +
      count m.hours * 3600000 + count m.minutes * 60000 + seconds * 1000 < 2 ^ 53 := by
    have hbound := h.bound
    rw [← hlength] at hbound
    exact_mod_cast hbound
  obtain ⟨⟨hy, hw, hd, hh, hmin, hs⟩, hsum1, hsum2, hsum3, hsum4, hsum5, hsum6⟩ :=
    partial_sums_lt hlt
  have hseconds' : Expr.Counts ((Expr.number (secondsCount m.seconds)).scale [1000])
      (seconds * 1000) := by
    rw [hseconds]
    exact .scaled _ (by decide) (by decide) hs
  exact ⟨_, ((((((countsYears hy).add (countsMonths h.months) hsum1).add
    (.scaled [7, 24, 3600, 1000] (by decide) (by decide) hw) hsum2).add
    (.scaled [24, 3600, 1000] (by decide) (by decide) hd) hsum3).add
    (.scaled [3600, 1000] (by decide) (by decide) hh) hsum4).add
    (.scaled [60, 1000] (by decide) (by decide) hmin) hsum5).add hseconds' hsum6⟩

/-! ## What is added to the base instant -/

variable {now later later' : Instant}

theorem le_of_ends (h : Date.of (plus now.val m.deltaMs) = some later) : now.val ≤ later.val := by
  obtain ⟨-, htrunc⟩ := Date.of_eq_some_iff.1 h
  calc now.val = trunc (fl now.val) := by rw [fl_instant, trunc_intCast]
    _ ≤ trunc (plus now.val m.deltaMs) :=
      trunc_mono (fl_mono (le_add_of_nonneg_right m.deltaMs_nonneg))
    _ = later.val := htrunc

theorem near_of_ends (h : Date.of (plus now.val m.deltaMs) = some later) :
    |(later.val : ℚ) - (now.val + m.length)| ≤ 1 + (|(now.val : ℚ)| + m.length) / 2 ^ 48 := by
  obtain ⟨-, htrunc⟩ := Date.of_eq_some_iff.1 h
  have hgamma : gamma 16 ≤ 1 / 2 ^ 48 := by
    unfold gamma roundoff
    norm_num
  have hone : roundoff ≤ gamma 16 := by
    calc roundoff = gamma 1 := by unfold gamma; ring
      _ ≤ gamma 16 := gamma_mono (by norm_num)
  have hstamp : |(later.val : ℚ) - plus now.val m.deltaMs| ≤ 1 := by
    rw [← htrunc]
    exact abs_trunc_sub_le _
  have hround : |plus now.val m.deltaMs - (now.val + m.deltaMs)| ≤
      roundoff * |(now.val : ℚ)| + roundoff * ((1 + roundoff) ^ 15 * m.length) := by
    calc |plus now.val m.deltaMs - (now.val + m.deltaMs)| ≤ roundoff * |now.val + m.deltaMs| :=
      abs_fl_sub_le _
      _ ≤ roundoff * (|(now.val : ℚ)| + m.deltaMs) := by
          refine mul_le_mul_of_nonneg_left ((abs_add_le _ _).trans ?_) roundoff_nonneg
          rw [abs_of_nonneg m.deltaMs_nonneg]
      _ ≤ roundoff * |(now.val : ℚ)| + roundoff * ((1 + roundoff) ^ 15 * m.length) := by
          rw [mul_add]
          exact add_le_add_right (mul_le_mul_of_nonneg_left m.deltaMs_near.le roundoff_nonneg) _
  have hdelta : |m.deltaMs - m.length| ≤ gamma 15 * m.length := m.deltaMs_near
  have hnow : roundoff * |(now.val : ℚ)| ≤ gamma 16 * |(now.val : ℚ)| :=
    mul_le_mul_of_nonneg_right hone (abs_nonneg _)
  have hlength : roundoff * ((1 + roundoff) ^ 15 * m.length) + gamma 15 * m.length =
      gamma 16 * m.length := by
    unfold gamma
    ring
  have hsplit : (later.val : ℚ) - (now.val + m.length) = (later.val - plus now.val m.deltaMs) +
      ((plus now.val m.deltaMs - (now.val + m.deltaMs)) + (m.deltaMs - m.length)) := by ring
  calc |(later.val : ℚ) - (now.val + m.length)|
      ≤ |(later.val : ℚ) - plus now.val m.deltaMs| +
        (|plus now.val m.deltaMs - (now.val + m.deltaMs)| +
          |m.deltaMs - m.length|) := by
        rw [hsplit]
        exact (abs_add_le _ _).trans (add_le_add_right (abs_add_le _ _) _)
    _ ≤ 1 + gamma 16 * (|(now.val : ℚ)| + m.length) := by linarith
    _ ≤ 1 + (|(now.val : ℚ)| + m.length) / 2 ^ 48 := by
        have hscale := mul_le_mul_of_nonneg_right hgamma
            (add_nonneg (abs_nonneg (now.val : ℚ)) m.length_nonneg)
        linarith

/-- Nothing is lost when whole components are added. -/
theorem Whole.ends_iff (h : m.Whole) :
    Date.of (plus now.val m.deltaMs) = some later ↔ (later.val : ℚ) = now.val + m.length := by
  obtain ⟨n, hn⟩ := h.sum
  have hlength : m.length = n := m.exact_sum.symm.trans hn.exact
  have hlt : n < 2 ^ 53 := by
    have hbound := h.bound
    rw [hlength] at hbound
    exact_mod_cast hbound
  obtain ⟨hlower, hupper⟩ := abs_le.1 now.2
  unfold maxTime at hlower hupper
  have hsum : (now.val : ℚ) + m.deltaMs = ((now.val + n : ℤ) : ℚ) := by
    rw [deltaMs_eq, hn.rounded]
    push_cast
    rfl
  rw [Date.of_eq_some_iff, plus, hsum, hlength, show (now.val : ℚ) + n =
    ((now.val + n : ℤ) : ℚ) by push_cast; rfl,
    Int.cast_inj]
  by_cases hin : (now.val + n).natAbs < 2 ^ 53
  · rw [fl_intCast hin, trunc_intCast]
    constructor
    · exact fun hends => hends.2.symm
    · rintro hlater
      have hle : |now.val + n| ≤ maxTime := hlater ▸ later.2
      exact ⟨by exact_mod_cast hle, hlater.symm⟩
  · -- past the range of dates
    have hpast : (2 : ℤ) ^ 53 ≤ now.val + n := by omega
    constructor
    · rintro ⟨hle, -⟩
      have hpow : fl ((1 : ℕ) * 2 ^ (53 : ℤ)) ≤ fl ((now.val + n : ℤ) : ℚ) := by
        refine fl_mono ?_
        rw [show ((1 : ℕ) : ℚ) * 2 ^ (53 : ℤ) = ((2 ^ 53 : ℤ) : ℚ) by norm_num]
        exact Int.cast_le.2 hpast
      rw [fl_of_bits (by norm_num)] at hpow
      have hmax := hpow.trans ((le_abs_self _).trans hle)
      exact absurd hmax (by unfold maxTime; norm_num)
    · intro hlater
      have hle := (abs_le.1 later.2).2
      unfold maxTime at hle
      omega

theorem Le.ends (h : m.Le m') (hm : Date.of (plus now.val m.deltaMs) = some later)
    (hm' : Date.of (plus now.val m'.deltaMs) = some later') : later.val ≤ later'.val := by
  obtain ⟨-, htrunc⟩ := Date.of_eq_some_iff.1 hm
  obtain ⟨-, htrunc'⟩ := Date.of_eq_some_iff.1 hm'
  rw [← htrunc, ← htrunc']
  exact trunc_mono (fl_mono (add_le_add_right h.deltaMs _))

end Match

variable {readDate : String → Date} {expr expr' : String} {now : Instant} {m m' : Match}

theorem parse_of_text (hm : m.text = Text.trim expr.toList) (date : Date) :
    parseTimerExpression readDate expr now = .ok date ↔
      Date.of (plus now.val m.deltaMs) = date := by
  rw [parseTimerExpression_eq_ok_iff]
  constructor
  · rintro (⟨hyear, -⟩ | ⟨m', hm', hdate⟩)
    · rw [← hm] at hyear
      exact absurd hyear (by simp [Match.text, startsWithYear, show 'P'.isDigit = false by decide])
    · rw [text_injective (hm.trans hm'.symm)]
      exact hdate
  · exact fun hdate => .inr ⟨m, hm, hdate⟩

/-- The end of a duration: never before the base instant, next to the exact sum of its components,
that sum itself when the components are whole, and not earlier when no component gets smaller. -/
theorem duration_ends (hm : m.text = Text.trim expr.toList) :
    (∀ later : Instant, parseTimerExpression readDate expr now = .ok (some later) →
    now.val ≤ later.val ∧
      |(later.val : ℚ) - (now.val + m.length)| ≤ 1 + (|(now.val : ℚ)| + m.length) / 2 ^ 48) ∧
    (m.Whole → ∀ later : Instant, parseTimerExpression readDate expr now = .ok (some later) ↔
      (later.val : ℚ) = now.val + m.length) ∧
    ∀ expr' m', m'.text = Text.trim expr'.toList → m.Le m' → ∀ later later' : Instant,
      parseTimerExpression readDate expr now = .ok (some later) →
      parseTimerExpression readDate expr' now = .ok (some later') → later.val ≤ later'.val := by
  refine ⟨fun later h => ?_, fun hwhole later => ?_, fun expr' m' hm' hle later later' h h' => ?_⟩
  · have hends := (parse_of_text hm _).1 h
    exact ⟨Match.le_of_ends hends, Match.near_of_ends hends⟩
  · rw [parse_of_text hm]
    exact hwhole.ends_iff
  · exact hle.ends ((parse_of_text hm _).1 h) ((parse_of_text hm' _).1 h')

def oneDigit (c : Char) (h : c.isDigit = true) : Digits :=
  ⟨[c], List.cons_ne_nil c [], List.forall_mem_singleton.2 h⟩

def dayAndTwoHours : Match where
  years := none
  months := none
  weeks := none
  days := some (oneDigit '1' rfl)
  time := some { hours := some (oneDigit '2' rfl), minutes := none, seconds := none }

theorem duration_ends_dayAndTwoHours :
    parseTimerExpression (fun _ => none) " P1DT2H" ⟨0, by decide⟩ =
      .ok (some ⟨93600000, by decide⟩) := by
  have htext : dayAndTwoHours.text = Text.trim " P1DT2H".toList := by decide +kernel
  have hlength : dayAndTwoHours.length = 93600000 := by
    have hday : count dayAndTwoHours.days = 1 := by decide +kernel
    have hhours : count dayAndTwoHours.hours = 2 := by decide +kernel
    have hseconds : (secondsCount dayAndTwoHours.seconds : ℚ) = 0 := rfl
    rw [Match.length, hday, hhours, hseconds]
    simp only [dayAndTwoHours, Match.minutes, Option.bind_some, count, Option.elim_none]
    norm_num
  have hwhole : dayAndTwoHours.Whole := ⟨rfl, ⟨0, by rfl⟩, by rw [hlength]; norm_num⟩
  refine ((duration_ends htext).2.1 hwhole _).2 ?_
  rw [hlength]
  norm_num

end NexusWorkflow.TimerExpression
