import MailMarkup.Proofs.DoublePacking

/-!
# Rounding to doubles

A number is cut off to a mantissa of which two further bits are kept, enough to round it to the
nearest integer. The numbers that are rounded to a canonical number are those of its interval, be
they integers or quotients. Rounding carries only from just below a power of two.
-/
namespace MailMarkup.Double
open Float.Model Float.Model.UnpackedFloat

/-- What the bits behind a mantissa say of the number that is cut off to it. -/
def IsTruncated : ExtendedMantissa → Rat → Prop
  | ⟨m, false, false⟩, x => x = m
  | ⟨m, false, true⟩, x => m < x ∧ x < m + 1 / 2
  | ⟨m, true, false⟩, x => x = m + 1 / 2
  | ⟨m, true, true⟩, x => m + 1 / 2 < x ∧ x < m + 1

theorem IsTruncated.bounds {em : ExtendedMantissa} {x : Rat} (h : IsTruncated em x) :
    em.mantissa ≤ x ∧ x < em.mantissa + 1 := by
  obtain ⟨m, roundBit, stickyBit⟩ := em
  cases roundBit <;> cases stickyBit <;> dsimp only [IsTruncated] at h ⊢ <;>
    constructor <;> linarith

/-- The last bit of the mantissa becomes the round bit, and what was behind it becomes sticky. -/
theorem IsTruncated.shiftRightOne {em : ExtendedMantissa} {x : Rat} (h : IsTruncated em x) :
    IsTruncated em.shiftRightOne (x / 2) := by
  obtain ⟨m, roundBit, stickyBit⟩ := em
  obtain ⟨k, rfl | rfl⟩ := m.even_or_odd'
  · have half : 2 * k / 2 = k := by omega
    have last : (2 * k % 2 != 0) = false := by simp
    cases roundBit <;> cases stickyBit <;>
      simp only [IsTruncated, ExtendedMantissa.shiftRightOne, half, last, Bool.or_true,
        Bool.or_false] at h ⊢ <;> push_cast at h
    · linarith
    · constructor <;> linarith
    · constructor <;> linarith
    · constructor <;> linarith
  · have half : (2 * k + 1) / 2 = k := by omega
    have last : ((2 * k + 1) % 2 != 0) = true := by simp
    cases roundBit <;> cases stickyBit <;>
      simp only [IsTruncated, ExtendedMantissa.shiftRightOne, half, last, Bool.or_true,
        Bool.or_false] at h ⊢ <;> push_cast at h
    · linarith
    · constructor <;> linarith
    · constructor <;> linarith
    · constructor <;> linarith

theorem IsTruncated.shiftRight {em : ExtendedMantissa} {x : Rat} (h : IsTruncated em x) (n : Nat) :
    IsTruncated (em >>> n) (x / 2 ^ n) := by
  induction n with
  | zero =>
    rw [pow_zero, div_one]
    exact h
  | succ n ih =>
    have step : em >>> (n + 1) = (em >>> n).shiftRightOne := rfl
    rw [step, pow_succ, ← div_div]
    exact ih.shiftRightOne

/-- The integer nearest to a number; of two that are equally near, the even one. -/
def IsNearest (n : Nat) (x : Rat) : Prop :=
  (n - 1 / 2 < x ∨ n % 2 = 0 ∧ n - 1 / 2 = x) ∧ (x < n + 1 / 2 ∨ n % 2 = 0 ∧ x = n + 1 / 2)

/-- It is at most half a unit away. -/
theorem IsNearest.le_add_half {n : Nat} {x : Rat} (h : IsNearest n x) :
    n ≤ x + 1 / 2 ∧ x ≤ n + 1 / 2 := by
  constructor
  · rcases h.1 with below | ⟨-, here⟩ <;> linarith
  · rcases h.2 with above | ⟨-, here⟩ <;> linarith

theorem le_of_cast_lt {a b : Nat} (h : (a : Rat) < b + 1) : a ≤ b :=
  Nat.lt_succ_iff.mp (by exact_mod_cast h)

/-- Of two neighbours only one is even. -/
theorem IsNearest.unique {n k : Nat} {x : Rat} (h : IsNearest n x) (other : IsNearest k x) :
    n = k := by
  obtain ⟨low, high⟩ := h.le_add_half
  obtain ⟨otherLow, otherHigh⟩ := other.le_add_half
  have upper : n ≤ k + 1 := by exact_mod_cast (by linarith : (n : Rat) ≤ k + 1)
  have lower : k ≤ n + 1 := by exact_mod_cast (by linarith : (k : Rat) ≤ n + 1)
  rcases (by omega : n = k ∨ n = k + 1 ∨ k = n + 1) with same | rfl | rfl
  · exact same
  · push_cast at low
    have even := (h.1.resolve_left (by push_cast; linarith)).1
    have otherEven := (other.2.resolve_left (by linarith)).1
    omega
  · push_cast at otherLow
    have even := (h.2.resolve_left (by linarith)).1
    have otherEven := (other.1.resolve_left (by push_cast; linarith)).1
    omega

/-- Halfway between the mantissa and the next one the even one is taken. -/
theorem IsTruncated.isNearest {em : ExtendedMantissa} {x : Rat} (h : IsTruncated em x) :
    IsNearest em.roundedMantissa x := by
  obtain ⟨m, roundBit, stickyBit⟩ := em
  cases roundBit <;> cases stickyBit <;> dsimp only [IsTruncated] at h
  · have rounded : (ExtendedMantissa.mk m false false).roundedMantissa = m := rfl
    rw [rounded]
    constructor <;> left <;> linarith
  · have rounded : (ExtendedMantissa.mk m false true).roundedMantissa = m := rfl
    rw [rounded]
    constructor <;> left <;> linarith
  · have rounded : (ExtendedMantissa.mk m true false).roundedMantissa = m + m % 2 := rfl
    rw [rounded]
    rcases Nat.mod_two_eq_zero_or_one m with even | odd
    · rw [even, add_zero]
      exact ⟨.inl (by linarith), .inr ⟨even, h⟩⟩
    · rw [odd]
      refine ⟨.inr ⟨by omega, ?_⟩, .inl ?_⟩ <;> push_cast <;> linarith
  · have rounded : (ExtendedMantissa.mk m true true).roundedMantissa = m + 1 := rfl
    rw [rounded]
    constructor <;> left <;> push_cast <;> linarith

theorem two_zpow_pos (e : Int) : (0 : Rat) < 2 ^ e := zpow_pos two_pos e

theorem lt_of_two_zpow_le {d e : Int} {v : Rat} (low : 2 ^ d ≤ v) (high : v < 2 ^ e) : d < e :=
  (zpow_lt_zpow_iff_right₀ one_lt_two).mp (low.trans_lt high)

/-- The first shift of a rounding. -/
theorem IsTruncated.shiftToExponent {v : Rat} {q : Nat} {f t : Int} {accuracy : Accuracy}
    (h : IsTruncated (.ofMantissaAndAccuracy q accuracy) (v / 2 ^ f)) (le : f ≤ t) :
    IsTruncated (shiftToExponent q f accuracy t).1 (v / 2 ^ t) ∧
      (shiftToExponent q f accuracy t).2 = t := by
  obtain ⟨n, rfl⟩ := Int.exists_add_of_le le
  have amount : (f + n - f).toNat = n := by omega
  constructor
  · have shifted := h.shiftRight n
    rw [div_div, ← zpow_natCast, ← zpow_add₀ two_ne_zero] at shifted
    simpa only [UnpackedFloat.shiftToExponent, amount] using shifted
  · simp only [UnpackedFloat.shiftToExponent, amount]

/-- A number lies below the power of two that its target exponent stands for, and at least half as
high unless that exponent is the lowest. -/
theorem IsTruncated.range {v : Rat} {q : Nat} {f t : Int} {accuracy : Accuracy}
    (h : IsTruncated (.ofMantissaAndAccuracy q accuracy) (v / 2 ^ f))
    (target : Format.binary64.targetExponent (totalExponent q f) = t) (le : f ≤ t) :
    v < 2 ^ (t + 53) ∧ (t = -1074 ∨ 2 ^ (t + 52) ≤ v) := by
  have mantissa : (ExtendedMantissa.ofMantissaAndAccuracy q accuracy).mantissa = q := by
    unfold ExtendedMantissa.ofMantissaAndAccuracy
    split <;> rfl
  obtain ⟨low, high⟩ := h.bounds
  rw [mantissa, le_div_iff₀ (two_zpow_pos f)] at low
  rw [mantissa, div_lt_iff₀ (two_zpow_pos f)] at high
  rw [targetExponent_eq, totalExponent] at target
  constructor
  · have bits : (q : Rat) + 1 ≤ 2 ^ ((q.log2 : Int) + 1) := by
      exact_mod_cast Nat.succ_le_of_lt (Nat.lt_log2_self (n := q))
    calc v < (q + 1) * 2 ^ f := high
      _ ≤ 2 ^ ((q.log2 : Int) + 1) * 2 ^ f := mul_le_mul_of_nonneg_right bits (two_zpow_pos f).le
      _ = 2 ^ (q.log2 + 1 + f) := (zpow_add₀ two_ne_zero _ _).symm
      _ ≤ 2 ^ (t + 53) := zpow_le_zpow_right₀ one_le_two (by omega)
  · by_cases lowest : t = -1074
    · exact .inl lowest
    · right
      have nonzero : q ≠ 0 := by
        rintro rfl
        have : Nat.log2 0 = 0 := Nat.log2_zero
        omega
      have bits : (2 : Rat) ^ (q.log2 : Int) ≤ q := by
        exact_mod_cast Nat.log2_self_le nonzero
      calc (2 : Rat) ^ (t + 52) = 2 ^ (q.log2 + f) := congrArg _ (by omega)
        _ = 2 ^ (q.log2 : Int) * 2 ^ f := zpow_add₀ two_ne_zero _ _
        _ ≤ q * 2 ^ f := mul_le_mul_of_nonneg_right bits (two_zpow_pos f).le
        _ ≤ v := low

/-- A number of the sign is cut off with enough bits for a mantissa, and the mantissa is rounded. -/
def IsRounding (s : Sign) (v : Rat) (u : UnpackedFloat) : Prop :=
  ∃ q f accuracy, u = roundWithAccuracy Format.binary64 s q f accuracy ∧
    IsTruncated (.ofMantissaAndAccuracy q accuracy) (v / 2 ^ f) ∧
    f ≤ Format.binary64.targetExponent (totalExponent q f)

/-- The number with a significand that may be zero. -/
def unpacked (s : Sign) (m : Nat) (e : Int) : UnpackedFloat :=
  if zero : m = 0 then .zero s else .finite s m e (Nat.pos_of_ne_zero zero)

/-- Rounding takes a number to the nearest integer in units of its last place, and carries. -/
theorem IsRounding.exists_nearest {s : Sign} {v : Rat} {u : UnpackedFloat}
    (h : IsRounding s v u) : ∃ n t, IsNearest n (v / 2 ^ t) ∧ -1074 ≤ t ∧
      (t = -1074 ∨ 2 ^ (t + 52) ≤ v) ∧ v < 2 ^ (t + 53) ∧
      ∀ m e, shiftToTargetExponent Format.binary64 n t .exact = (⟨m, false, false⟩, e) →
        u = unpacked s m e := by
  obtain ⟨q, f, accuracy, rfl, cut, fine⟩ := h
  obtain ⟨t, target⟩ : ∃ t, Format.binary64.targetExponent (totalExponent q f) = t := ⟨_, rfl⟩
  rw [target] at fine
  obtain ⟨high, enough⟩ := cut.range target fine
  obtain ⟨shifted, first⟩ := cut.shiftToExponent fine
  have low : -1074 ≤ t := target ▸ le_max_right _ _
  refine ⟨_, t, shifted.isNearest, low, enough, high, fun m e last => ?_⟩
  simp only [roundWithAccuracy, shiftToTargetExponent.eq_1 _ q, target, first, last]
  rfl

/-- No carry, no second shift. -/
theorem shiftToTargetExponent_short {n : Nat} {t : Int} (short : n < 2 ^ 53) (low : -1074 ≤ t) :
    shiftToTargetExponent Format.binary64 n t .exact = (⟨n, false, false⟩, t) := by
  have log : n.log2 ≤ 52 := by
    by_cases zero : n = 0
    · simp [zero]
    · exact Nat.lt_succ_iff.mp ((Nat.log2_lt zero).mpr short)
  have still : (Format.binary64.targetExponent (totalExponent n t) - t).toNat = 0 := by
    rw [targetExponent_eq, totalExponent]
    omega
  simp only [shiftToTargetExponent, shiftToExponent, still]
  exact congrArg (Prod.mk _) (add_zero t)

theorem shiftToTargetExponent_carry {t : Int} (low : -1074 ≤ t) :
    shiftToTargetExponent Format.binary64 (2 ^ 53) t .exact = (⟨2 ^ 52, false, false⟩, t + 1) := by
  have log : Nat.log2 (2 ^ 53) = 53 := Nat.log2_two_pow
  have one : (Format.binary64.targetExponent (totalExponent (2 ^ 53) t) - t).toNat = 1 := by
    rw [targetExponent_eq, totalExponent, log]
    omega
  simp only [shiftToTargetExponent, shiftToExponent, one]
  rfl

end MailMarkup.Double

namespace MailMarkup.Decimal

/-- The number lies in the interval, at an end of it only if the ends belong to it. -/
@[mk_iff]
structure Interval.Holds (i : Interval) (v : Rat) : Prop where
  above : i.low < v / 2 ^ i.exponent ∨ i.closed = true ∧ i.low = v / 2 ^ i.exponent
  below : v / 2 ^ i.exponent < i.high ∨ i.closed = true ∧ v / 2 ^ i.exponent = i.high

private theorem closed_intervalOf {m : Nat} {e : Int} :
    (intervalOf m e).closed = true ↔ m % 2 = 0 :=
  decide_eq_true_iff

end MailMarkup.Decimal

namespace MailMarkup.Double
open Float.Model Float.Model.UnpackedFloat Decimal

variable {m : Nat} {e : Int} {v : Rat}

private theorem div_two_zpow (v : Rat) (d e : Int) : v / 2 ^ (d + e) = v / 2 ^ d / 2 ^ e := by
  rw [zpow_add₀ two_ne_zero, div_div]

theorem le_two_zpow_iff {d e : Int} : 2 ^ (d + e) ≤ v ↔ 2 ^ e ≤ v / 2 ^ d := by
  rw [le_div_iff₀ (two_zpow_pos d), add_comm, zpow_add₀ two_ne_zero]

theorem lt_two_zpow_iff {d e : Int} : v < 2 ^ (d + e) ↔ v / 2 ^ d < 2 ^ e := by
  rw [div_lt_iff₀ (two_zpow_pos d), add_comm, zpow_add₀ two_ne_zero]

/-- Intervals are given in quarters of the last place. -/
theorem div_unit (m : Nat) (e : Int) (v : Rat) :
    v / 2 ^ (intervalOf m e).exponent = 4 * (v / 2 ^ e) := by
  have exponent : (intervalOf m e).exponent = e + -2 := rfl
  rw [exponent, div_two_zpow]
  norm_num
  ring

/-- The interval of a canonical number reaches half a place to both sides, but only a quarter of a
place down from a power of two. -/
theorem IsCanonical.around_of_holds (c : IsCanonical m e) (h : (intervalOf m e).Holds v) :
    (m - 1 / 2 < v / 2 ^ e ∨ m % 2 = 0 ∧ m - 1 / 2 = v / 2 ^ e) ∧
      (v / 2 ^ e < m + 1 / 2 ∨ m % 2 = 0 ∧ v / 2 ^ e = m + 1 / 2) ∧
      (m = 2 ^ 52 → e ≠ -1074 → m - 1 / 4 ≤ v / 2 ^ e) := by
  have pos := c.pos
  have low : (intervalOf m e).low = 4 * m - if m = 2 ^ 52 ∧ e ≠ -1074 then 1 else 2 := rfl
  have high : (intervalOf m e).high = 4 * m + 2 := rfl
  obtain ⟨above, below⟩ := h
  rw [closed_intervalOf, div_unit, low] at above
  rw [closed_intervalOf, div_unit, high] at below
  generalize v / 2 ^ e = x at *
  refine ⟨?_, ?_, fun power lifted => ?_⟩
  · split at above
    · left
      rw [Nat.cast_sub (by omega)] at above
      push_cast at above
      rcases above with above | ⟨-, here⟩ <;> linarith
    · rw [Nat.cast_sub (by omega)] at above
      push_cast at above
      exact above.imp (fun above => by linarith) fun here => ⟨here.1, by linarith [here.2]⟩
  · push_cast at below
    exact below.imp (fun below => by linarith) fun here => ⟨here.1, by linarith [here.2]⟩
  · rw [if_pos ⟨power, lifted⟩, Nat.cast_sub (by omega)] at above
    push_cast at above
    rcases above with above | ⟨-, here⟩ <;> linarith

theorem IsCanonical.isNearest (c : IsCanonical m e) (h : (intervalOf m e).Holds v) :
    IsNearest m (v / 2 ^ e) :=
  ⟨(c.around_of_holds h).1, (c.around_of_holds h).2.1⟩

/-- Below a power of two the places are half as large. -/
theorem IsCanonical.isNearest_below (c : IsCanonical m e) (h : (intervalOf m e).Holds v)
    (lifted : e ≠ -1074) (below : v < 2 ^ (e + 52)) :
    m = 2 ^ 52 ∧ 2 ^ (e + 51) ≤ v ∧ IsNearest (2 ^ 53) (v / 2 ^ (e - 1)) := by
  have unit : v / 2 ^ (e - 1) = 2 * (v / 2 ^ e) := by
    rw [Int.sub_eq_add_neg, div_two_zpow]
    norm_num
    ring
  obtain ⟨low, -⟩ := (c.isNearest h).le_add_half
  have quarter := (c.around_of_holds h).2.2
  rw [lt_two_zpow_iff] at below
  rw [le_two_zpow_iff, unit]
  generalize v / 2 ^ e = x at *
  norm_num at below
  obtain rfl : m = 2 ^ 52 := by
    apply le_antisymm _ (c.full.resolve_right lifted)
    exact le_of_cast_lt (by push_cast; linarith)
  have quarter := quarter rfl lifted
  push_cast at quarter
  refine ⟨rfl, by norm_num; linarith, ?_, .inl (by push_cast; linarith)⟩
  exact quarter.lt_or_eq.imp (fun lt => by push_cast; linarith)
    fun eq => ⟨by norm_num, by push_cast; linarith⟩

/-- What lies in the interval of a canonical number is nearest to its significand in units of its
last place, or so close below a power of two that rounding carries. -/
theorem IsCanonical.exists_nearest (c : IsCanonical m e) (h : (intervalOf m e).Holds v) :
    ∃ n d, IsNearest n (v / 2 ^ d) ∧ -1074 ≤ d ∧ (d = -1074 ∨ 2 ^ (d + 52) ≤ v) ∧
      v < 2 ^ (d + 53) ∧
      shiftToTargetExponent Format.binary64 n d .exact = (⟨m, false, false⟩, e) := by
  have low := c.low
  by_cases enough : e = -1074 ∨ 2 ^ (e + 52) ≤ v
  · refine ⟨m, e, c.isNearest h, low, enough, ?_, shiftToTargetExponent_short c.short low⟩
    obtain ⟨-, high⟩ := (c.isNearest h).le_add_half
    have short : (m : Rat) + 1 ≤ 2 ^ 53 := by exact_mod_cast Nat.succ_le_of_lt c.short
    rw [lt_two_zpow_iff]
    norm_num at short ⊢
    linarith
  · rw [not_or, not_le] at enough
    obtain ⟨lifted, below⟩ := enough
    obtain ⟨rfl, half, nearest⟩ := c.isNearest_below h lifted below
    have carry := shiftToTargetExponent_carry (t := e - 1) (by omega)
    rw [sub_add_cancel] at carry
    refine ⟨2 ^ 53, e - 1, nearest, by omega, .inr ?_, ?_, carry⟩
    · rwa [sub_add]
    · rwa [sub_add]

/-- What lies in the interval of a canonical number is rounded to it. -/
theorem IsCanonical.eq_of_isRounding (c : IsCanonical m e) (h : (intervalOf m e).Holds v)
    {s : Sign} {u : UnpackedFloat} (rounding : IsRounding s v u) : u = .finite s m e c.pos := by
  obtain ⟨n, d, nearest, least, enough, below, last⟩ := c.exists_nearest h
  obtain ⟨k, t, rounded, low, full, high, carries⟩ := rounding.exists_nearest
  have target : t = d := by
    apply le_antisymm
    · rcases full with lowest | full
      · omega
      · have := lt_of_two_zpow_le full below
        omega
    · rcases enough with lowest | enough
      · omega
      · have := lt_of_two_zpow_le enough high
        omega
  subst target
  obtain rfl := rounded.unique nearest
  exact (carries m e last).trans (dif_neg c.pos.ne')

/-- The remainder of a division tells what the quotient is cut off from. -/
theorem isTruncated_div (a : Nat) {b : Nat} (pos : 0 < b) :
    IsTruncated (.ofMantissaAndAccuracy (a / b) (accuracyOfFraction (a % b) b)) (a / b : Rat) := by
  have denominator : (0 : Rat) < b := by exact_mod_cast pos
  have split : (a : Rat) / b = (a / b : Nat) + (a % b : Nat) / b := by
    have : (a : Rat) = b * (a / b : Nat) + (a % b : Nat) := by
      exact_mod_cast (Nat.div_add_mod a b).symm
    field_simp
    linarith
  have less : ((a % b : Nat) : Rat) / b < 1 := by
    rw [div_lt_iff₀ denominator, one_mul]
    exact_mod_cast Nat.mod_lt a pos
  rw [split]
  generalize a % b = r at *
  unfold accuracyOfFraction
  split
  · next zero => simp [zero, IsTruncated, ExtendedMantissa.ofMantissaAndAccuracy]
  · next nonzero =>
    have positive : (0 : Rat) < r / b :=
      div_pos (by exact_mod_cast Nat.pos_of_ne_zero nonzero) denominator
    cases half : compare (2 * r) b with
    | lt =>
      have below : (2 * r : Rat) < b := by exact_mod_cast compare_lt_iff_lt.mp half
      have : (r / b : Rat) < 1 / 2 := by rw [div_lt_iff₀ denominator]; linarith
      exact ⟨by linarith, by linarith⟩
    | eq =>
      have here : (2 * r : Rat) = b := by exact_mod_cast compare_eq_iff_eq.mp half
      have : (r / b : Rat) = 1 / 2 := by rw [div_eq_iff denominator.ne']; linarith
      exact congrArg _ this
    | gt =>
      have above : (b : Rat) < 2 * r := by exact_mod_cast compare_gt_iff_gt.mp half
      have : (1 / 2 : Rat) < r / b := by rw [lt_div_iff₀ denominator]; linarith
      exact ⟨by linarith, by linarith⟩

private theorem log2_le_of_div {a b : Nat} (a_pos : 0 < a) (b_pos : 0 < b) :
    a.log2 ≤ (a / b).log2 + b.log2 + 1 := by
  have below : a < 2 ^ ((a / b).log2 + b.log2 + 2) :=
    calc a < (a / b + 1) * b := by
          rw [mul_comm]
          exact Nat.lt_mul_div_succ a b_pos
      _ ≤ 2 ^ ((a / b).log2 + 1) * 2 ^ (b.log2 + 1) :=
          Nat.mul_le_mul (Nat.succ_le_of_lt Nat.lt_log2_self) Nat.lt_log2_self.le
      _ = 2 ^ ((a / b).log2 + b.log2 + 2) := by ring
  exact Nat.lt_succ_iff.mp ((Nat.log2_lt a_pos.ne').mpr below)

theorem log2_add_le {a : Nat} (pos : 0 < a) (n : Nat) : a.log2 + n ≤ (a <<< n).log2 := by
  have nonzero : a <<< n ≠ 0 := by simp [pos.ne']
  rw [Nat.le_log2 nonzero, Nat.shiftLeft_eq, pow_add]
  exact Nat.mul_le_mul_right _ (Nat.log2_self_le pos.ne')

/-- A quotient is cut off with enough bits and rounded. -/
theorem IsRounding.div {a b : Nat} {f g : Int} (a_pos : 0 < a) (b_pos : 0 < b) (s t : Sign) :
    IsRounding (s / t) (a * 2 ^ f / (b * 2 ^ g))
      (UnpackedFloat.div Format.binary64 (.finite s a f a_pos) (.finite t b g b_pos)) := by
  obtain ⟨target, start⟩ : ∃ target, target = min (f - g) (Format.binary64.targetExponent
      (totalExponent a f - totalExponent b g)) := ⟨_, rfl⟩
  have fine := start.le
  rw [le_min_iff, targetExponent_eq, totalExponent, totalExponent] at fine
  obtain ⟨n, difference⟩ := Int.exists_add_of_le fine.1
  have amount : (f - g - target).toNat = n := by omega
  refine ⟨(a <<< n) / b, target, accuracyOfFraction ((a <<< n) % b) b, ?_, ?_, ?_⟩
  · simp only [UnpackedFloat.div, divCore, ← start, amount]
  · have value : (a * 2 ^ f / (b * 2 ^ g) / 2 ^ target : Rat) = (a <<< n : Nat) / b := by
      have power : (2 : Rat) ^ f = 2 ^ target * 2 ^ n * 2 ^ g := by
        rw [← zpow_natCast, ← zpow_add₀ two_ne_zero, ← zpow_add₀ two_ne_zero]
        exact congrArg _ (by omega)
      rw [power, Nat.shiftLeft_eq]
      push_cast
      field_simp
    rw [value]
    exact isTruncated_div _ b_pos
  · have shifted := log2_add_le a_pos n
    have enough := log2_le_of_div (Nat.shiftLeft_pos_iff.mpr a_pos : 0 < a <<< n) b_pos
    rw [targetExponent_eq, totalExponent]
    omega

theorem intervalOf_proper {m : Nat} (pos : 0 < m) (e : Int) :
    (intervalOf m e).low < (intervalOf m e).middle ∧
      (intervalOf m e).middle < (intervalOf m e).high := by
  have low : (intervalOf m e).low = 4 * m - if m = 2 ^ 52 ∧ e ≠ -1074 then 1 else 2 := rfl
  have middle : (intervalOf m e).middle = 4 * m := rfl
  have high : (intervalOf m e).high = 4 * m + 2 := rfl
  rw [low, middle, high]
  split <;> omega

/-- A canonical number lies in its interval. -/
theorem IsCanonical.holds_self (c : IsCanonical m e) : (intervalOf m e).Holds (m * 2 ^ e) := by
  obtain ⟨low, high⟩ := intervalOf_proper c.pos e
  have unit : (m * 2 ^ e / 2 ^ (intervalOf m e).exponent : Rat) = (intervalOf m e).middle := by
    have middle : (intervalOf m e).middle = 4 * m := rfl
    rw [div_unit, mul_div_cancel_right₀ _ (two_zpow_pos e).ne', middle]
    push_cast
    rfl
  constructor <;> left <;> rw [unit] <;> exact_mod_cast ‹_›

theorem IsRounding.round {n : Nat} (pos : 0 < n) (f : Int) (s : Sign) :
    IsRounding s (n * 2 ^ f) (UnpackedFloat.round Format.binary64 s n f) := by
  obtain ⟨k, amount⟩ :
      ∃ k, (f - Format.binary64.targetExponent (totalExponent n f)).toNat = k := ⟨_, rfl⟩
  refine ⟨n <<< k, f - k, .exact, ?_, ?_, ?_⟩
  · simp only [UnpackedFloat.round, decreaseExponent, amount]
  · show (n * 2 ^ f / 2 ^ (f - k) : Rat) = (n <<< k : Nat)
    rw [Nat.shiftLeft_eq, zpow_sub₀ two_ne_zero, zpow_natCast]
    push_cast
    field_simp
  · have shifted := log2_add_le pos k
    rw [targetExponent_eq, totalExponent] at amount ⊢
    omega

/-- Integers of up to 53 bits are canonical with 53 bits. -/
theorem exists_isCanonical {n : Nat} (pos : 0 < n) (short : n < 2 ^ 53) :
    ∃ m e, IsCanonical m e ∧ (m * 2 ^ e : Rat) = n := by
  have log : n.log2 ≤ 52 := Nat.lt_succ_iff.mp ((Nat.log2_lt pos.ne').mpr short)
  obtain ⟨k, bits⟩ := Nat.exists_eq_add_of_le log
  have full : 2 ^ 52 ≤ n * 2 ^ k := by
    rw [bits, pow_add]
    exact Nat.mul_le_mul_right _ (Nat.log2_self_le pos.ne')
  have below : n * 2 ^ k < 2 ^ 53 := by
    have power : 2 ^ 53 = 2 ^ (n.log2 + 1) * 2 ^ k := by
      rw [← pow_add]
      exact congrArg _ (by omega)
    rw [power]
    exact Nat.mul_lt_mul_of_pos_right Nat.lt_log2_self (Nat.two_pow_pos k)
  refine ⟨n * 2 ^ k, -k, ⟨by omega, below, by omega, by omega, .inl full⟩, ?_⟩
  rw [zpow_neg, zpow_natCast]
  push_cast
  field_simp

theorem exists_toFloat_eq {n : Nat} (pos : 0 < n) (short : n < 2 ^ 53) :
    ∃ m e, ∃ c : IsCanonical m e,
      (m * 2 ^ e : Rat) = n ∧ n.toUInt64.toFloat = ofCanonical .positive c := by
  obtain ⟨m, e, c, value⟩ := exists_isCanonical pos short
  refine ⟨m, e, c, value, ?_⟩
  have word : n < UInt64.size := short.trans (by decide)
  have toNat : n.toUInt64.toNat = n := UInt64.toNat_ofNat_of_lt word
  have positive : compare (n : Int) 0 = .gt := compare_gt_iff_gt.mpr (by omega)
  have unpacked : UnpackedFloat.ofUInt64 Format.binary64 n.toUInt64 =
      UnpackedFloat.round Format.binary64 .positive n 0 := by
    simp only [UnpackedFloat.ofUInt64, UnpackedFloat.ofNat, UnpackedFloat.ofInt,
      UnpackedFloat.normalize, toNat, positive, Int.toNat_natCast]
  have holds := c.holds_self
  rw [value, ← mul_one (n : Rat), ← zpow_zero 2] at holds
  have rounded := c.eq_of_isRounding holds (.round pos 0 .positive)
  exact congrArg (fun u => Float.ofModel (Float.Model.pack u)) (unpacked.trans rounded)

end MailMarkup.Double
