import MailMarkup.Proofs.DoubleRounding

/-!
# Reading decimals

Digits with a number of decimal places are read as the quotient of two integers, in floating point
if both are doubles and else exactly. Either way a decimal in the interval of a canonical number is
read as that number.
-/
namespace MailMarkup.Double
open Float.Model Float.Model.UnpackedFloat Decimal

variable {m : Nat} {e : Int} {v : Rat}

/-- A power as a quotient of natural powers. -/
theorem zpow_eq_div {b : Rat} (nonzero : b ≠ 0) (k : Int) :
    b ^ k = b ^ k.toNat / b ^ (-k).toNat := by
  rw [← zpow_natCast, ← zpow_natCast, ← zpow_sub₀ nonzero]
  exact congrArg _ (by omega)

/-- The number is a power of ten. -/
def isTenTo (p : Nat) : UnpackedFloat → Bool
  | .finite .positive b g _ => b * 2 ^ g.toNat == 10 ^ p * 2 ^ (-g).toNat
  | _ => false

theorem exists_of_isTenTo {p : Nat} {u : UnpackedFloat} (h : isTenTo p u = true) :
    ∃ b g pos, u = .finite .positive b g pos ∧ (b * 2 ^ g : Rat) = 10 ^ p := by
  unfold isTenTo at h
  split at h
  · next b g pos =>
    refine ⟨b, g, pos, rfl, ?_⟩
    rw [zpow_eq_div two_ne_zero, ← mul_div_assoc, div_eq_iff (by positivity)]
    exact_mod_cast beq_iff_eq.mp h
  · cases h

theorem isTenTo_powersOfTen : ∀ p : Fin Float.exactlyRepresentablePowersOfTen.size,
    isTenTo p Float.exactlyRepresentablePowersOfTen[p].toModel.unpack = true := by
  decide +kernel

/-- What rounds to a number other than zero is at least half of the smallest one. -/
theorem IsCanonical.two_zpow_le (c : IsCanonical m e) (h : (intervalOf m e).Holds v) :
    2 ^ (-1075 : Int) ≤ v := by
  obtain ⟨near, -⟩ := (c.isNearest h).le_add_half
  have pos : (1 : Rat) ≤ m := by exact_mod_cast c.pos
  have half : (2 : Rat) ^ (-1 : Int) ≤ v / 2 ^ e := by
    norm_num
    linarith
  have low := c.low
  exact (zpow_le_zpow_right₀ one_le_two (by omega)).trans (le_two_zpow_iff.mpr half)

/-- A decimal that does not vanish has no more places than can be formed. -/
theorem IsCanonical.places_le (c : IsCanonical m e) {digits places : Nat}
    (h : (intervalOf m e).Holds (digits / 10 ^ places)) :
    0 < digits ∧ places ≤ 1075 + digits.log2 := by
  have least := c.two_zpow_le h
  constructor
  · by_contra zero
    obtain rfl : digits = 0 := Nat.eq_zero_of_not_pos zero
    have positive := (two_zpow_pos (-1075)).trans_le least
    simp at positive
  · rw [le_div_iff₀ (by positivity)] at least
    have tens : (2 : Rat) ^ places ≤ 10 ^ places := pow_le_pow_left₀ two_pos.le (by norm_num) places
    have low : (2 : Rat) ^ (-1075 + places : Int) ≤ digits := by
      rw [zpow_add₀ two_ne_zero, zpow_natCast]
      exact (mul_le_mul_of_nonneg_left tens (two_zpow_pos _).le).trans least
    have high : (digits : Rat) < 2 ^ ((digits.log2 + 1 : Nat) : Int) := by
      rw [zpow_natCast]
      exact_mod_cast Nat.lt_log2_self
    have := lt_of_two_zpow_le low high
    omega

/-- An integer is read as if it were multiplied by one. -/
theorem ofScientific_zero {digits : Nat} (pos : 0 < digits) :
    UnpackedFloat.ofScientific Format.binary64 digits 0 =
      roundWithAccuracy Format.binary64 .positive (digits <<< 53) (-53) .exact := by
  have bits : (2 : Int) ^ Format.binary64.exponentBits = 2048 := by norm_num
  unfold UnpackedFloat.ofScientific
  rw [dif_neg pos.ne', if_neg (by omega), if_neg (by omega), if_pos le_rfl]
  show roundWithAccuracy Format.binary64 .positive (digits <<< 53 * 1) (-53 + 0) .exact = _
  rw [mul_one, add_zero]

/-- Digits whose places can be formed are divided exactly and rounded once. -/
theorem IsRounding.ofScientific {digits places : Nat} (pos : 0 < digits)
    (formed : places ≤ 2048 + digits.log2) :
    IsRounding .positive (digits / 10 ^ places)
      (UnpackedFloat.ofScientific Format.binary64 digits (Int.negOfNat places)) := by
  cases places with
  | zero =>
    have shifted := log2_add_le pos 53
    refine ⟨digits <<< 53, -53, .exact, ofScientific_zero pos, ?_, ?_⟩
    · show (digits / 10 ^ 0 / 2 ^ (-53 : Int) : Rat) = (digits <<< 53 : Nat)
      rw [Nat.shiftLeft_eq, pow_zero, zpow_neg]
      push_cast
      simp
    · rw [targetExponent_eq, totalExponent]
      omega
  | succ p =>
    have bits : (2 : Int) ^ Format.binary64.exponentBits = 2048 := by norm_num
    unfold UnpackedFloat.ofScientific
    rw [dif_neg pos.ne', Int.negOfNat_eq, Int.ofNat_eq_natCast, if_neg (by omega),
      if_neg (by omega), if_neg (by omega)]
    have tens : 0 < 10 ^ (p + 1) := by positivity
    have quotient := IsRounding.div (f := 0) (g := 0) pos tens .positive .positive
    rw [zpow_zero, mul_one, mul_one] at quotient
    push_cast at quotient
    exact quotient

theorem exists_isRounding {digits places : Nat} (pos : 0 < digits)
    (formed : places ≤ 2048 + digits.log2) :
    ∃ u, Float.ofScientific digits true places = .ofModel (.pack u) ∧
      IsRounding .positive (digits / 10 ^ places) u := by
  unfold Float.ofScientific
  split
  · next short =>
    obtain ⟨a, f, canonical, value, float⟩ := exists_toFloat_eq pos short.1
    have known : places < Float.exactlyRepresentablePowersOfTen.size := Nat.lt_succ_of_le short.2
    obtain ⟨b, g, b_pos, unpacked, tens⟩ := exists_of_isTenTo (isTenTo_powersOfTen ⟨places, known⟩)
    have quotient := IsRounding.div (f := f) (g := g) canonical.pos b_pos .positive .positive
    rw [value, tens, ← unpack_ofCanonical .positive canonical, ← float, ← unpacked] at quotient
    exact ⟨_, rfl, quotient⟩
  · exact ⟨_, rfl, .ofScientific pos formed⟩

/-- A decimal in the interval of a canonical number is read as that number. -/
theorem IsCanonical.ofScientific_eq (c : IsCanonical m e) {digits places : Nat}
    (h : (intervalOf m e).Holds (digits / 10 ^ places)) :
    Float.ofScientific digits true places = ofCanonical .positive c := by
  obtain ⟨pos, formed⟩ := c.places_le h
  obtain ⟨u, read, rounding⟩ := exists_isRounding pos (formed.trans (by omega))
  rw [read, c.eq_of_isRounding h rounding]
  rfl

end MailMarkup.Double
