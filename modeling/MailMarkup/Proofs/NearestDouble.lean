import MailMarkup.Proofs.DecimalRounding

/-!
# The closest double

Digits with a number of decimal places are read as the double that is closest to them. A nearest
integer in units of the last place is closest among all doubles: higher exponents give integers in
these units only, and at lower ones nothing reaches the least significand of 53 bits. From half a
place above the largest finite double numbers are read as infinite.
-/
namespace MailMarkup.Double
open Float.Model Float.Model.UnpackedFloat Decimal

variable {m k : Nat} {e d : Int} {v : Rat}

/-- Halfway between two integers the nearest one is even. -/
theorem IsNearest.abs_sub_cases {n : Nat} {x : Rat} (h : IsNearest n x) :
    |x - n| < 1 / 2 ∨ |x - n| = 1 / 2 ∧ n % 2 = 0 := by
  obtain ⟨low | ⟨even, low⟩, high | ⟨even, high⟩⟩ := h
  · exact .inl (abs_lt.mpr ⟨by linarith, by linarith⟩)
  · exact .inr ⟨by rw [high, add_sub_cancel_left]; norm_num, even⟩
  · exact .inr ⟨by rw [← low, abs_sub_comm, sub_sub_cancel]; norm_num, even⟩
  · linarith

theorem IsNearest.closest {n : Nat} {x : Rat} (h : IsNearest n x) (k : Nat) :
    |x - n| ≤ |x - k| ∧ (|x - n| = |x - k| → n % 2 = 0 ∨ n = k) := by
  by_cases same : n = k
  · rw [same]
    exact ⟨le_rfl, fun _ => .inr rfl⟩
  · have apart : (1 : Rat) ≤ |(n : Rat) - k| := by
      have : (1 : Int) ≤ |(n : Int) - k| := Int.one_le_abs (by omega)
      exact_mod_cast this
    have triangle := abs_sub_le (n : Rat) x k
    rw [abs_sub_comm (n : Rat) x] at triangle
    rcases h.abs_sub_cases with near | ⟨half, even⟩
    · exact ⟨by linarith, fun tie => by linarith⟩
    · exact ⟨by linarith, fun _ => .inl even⟩

/-- At a higher exponent numbers are integers in units of the lower one. -/
theorem mul_two_zpow_add (k j : Nat) (t : Int) :
    (k * 2 ^ (t + j) : Rat) = (k * 2 ^ j : Nat) * 2 ^ t := by
  rw [zpow_add₀ two_ne_zero, zpow_natCast]
  push_cast
  ring

/-- At a lower exponent nothing reaches the least significand of 53 bits. -/
theorem mul_two_zpow_lt {t : Int} (short : k < 2 ^ 53) (lower : d < t) :
    (k * 2 ^ d : Rat) < (2 ^ 52 : Nat) * 2 ^ t := by
  have bits : (k : Rat) < 2 ^ (53 : Int) := by exact_mod_cast short
  calc (k * 2 ^ d : Rat) < 2 ^ (53 : Int) * 2 ^ d := mul_lt_mul_of_pos_right bits (two_zpow_pos d)
    _ = 2 ^ (53 + d) := (zpow_add₀ two_ne_zero _ _).symm
    _ ≤ 2 ^ (52 + t) := zpow_le_zpow_right₀ one_le_two (by omega)
    _ = (2 ^ 52 : Nat) * 2 ^ t := by rw [zpow_add₀ two_ne_zero]; norm_num

/-- Nothing with a significand of 53 bits is closer to `v`, and what is equally close is the same
number, or the significand is even. -/
def IsBest (v : Rat) (m : Nat) (e : Int) : Prop :=
  ∀ (k : Nat) (d : Int), k < 2 ^ 53 → -1074 ≤ d → |v - m * 2 ^ e| ≤ |v - k * 2 ^ d| ∧
    (|v - m * 2 ^ e| = |v - k * 2 ^ d| → m % 2 = 0 ∨ (m * 2 ^ e : Rat) = k * 2 ^ d)

theorem IsNearest.isBest {n : Nat} {t : Int} (nearest : IsNearest n (v / 2 ^ t))
    (enough : t = -1074 ∨ 2 ^ (t + 52) ≤ v) : IsBest v n t := by
  intro k d short low
  have unit := two_zpow_pos t
  have scaled (y : Rat) : |v - y * 2 ^ t| = |v / 2 ^ t - y| * 2 ^ t := by
    rw [← abs_of_pos unit, ← abs_mul, sub_mul, abs_of_pos unit, div_mul_cancel₀ _ unit.ne']
  obtain ⟨y, value⟩ : ∃ y : Rat, (k * 2 ^ d : Rat) = y * 2 ^ t :=
    ⟨k * 2 ^ d / 2 ^ t, (div_mul_cancel₀ _ unit.ne').symm⟩
  rw [value, scaled, scaled, mul_left_inj' unit.ne', mul_left_inj' unit.ne',
    mul_le_mul_iff_left₀ unit]
  rcases le_or_gt t d with le | lt
  · obtain ⟨j, rfl⟩ := Int.exists_add_of_le le
    rw [mul_two_zpow_add, mul_left_inj' unit.ne'] at value
    subst value
    exact_mod_cast nearest.closest (k * 2 ^ j)
  · have below : y < (2 ^ 52 : Nat) := by
      apply lt_of_mul_lt_mul_right _ unit.le
      rw [← value]
      exact mul_two_zpow_lt short lt
    have above : (2 ^ 52 : Nat) ≤ v / 2 ^ t := by
      have full := le_two_zpow_iff.mp (enough.resolve_left (by omega))
      exact_mod_cast full
    obtain ⟨least, -⟩ := nearest.closest (2 ^ 52)
    rw [abs_of_nonneg (sub_nonneg.mpr above)] at least
    have nearer : |v / 2 ^ t - n| < |v / 2 ^ t - y| := by
      rw [abs_of_pos (sub_pos.mpr (below.trans_le above))]
      exact least.trans_lt (sub_lt_sub_left below _)
    exact ⟨nearer.le, fun tie => absurd tie nearer.ne⟩

/-- Half a place above the largest finite double. -/
def limit : Rat := (2 ^ 53 - 1 / 2) * 2 ^ (971 : Int)

/-- The largest significand is odd, so halfway above it the carry is taken. -/
theorem IsNearest.lt_limit_iff {n : Nat} {t : Int} (nearest : IsNearest n (v / 2 ^ t))
    (enough : t = -1074 ∨ 2 ^ (t + 52) ≤ v) (below : v < 2 ^ (t + 53)) :
    v < limit ↔ t < 971 ∨ t = 971 ∧ n < 2 ^ 53 := by
  rw [limit, ← div_lt_iff₀ (two_zpow_pos 971)]
  rcases lt_trichotomy t 971 with lower | rfl | higher
  · have far : v / 2 ^ (971 : Int) < 2 ^ (52 : Int) := by
      rw [← lt_two_zpow_iff]
      exact below.trans_le (zpow_le_zpow_right₀ one_le_two (by omega))
    simp only [lower, true_or, iff_true]
    generalize v / 2 ^ (971 : Int) = x at far ⊢
    norm_num at far ⊢
    linarith
  · simp only [lt_irrefl, false_or, true_and]
    generalize v / 2 ^ (971 : Int) = x at nearest ⊢
    obtain ⟨low, high⟩ := nearest.le_add_half
    constructor
    · intro lt
      exact_mod_cast (by linarith : (n : Rat) < 2 ^ 53)
    · intro lt
      rcases (Nat.le_sub_one_of_lt lt).lt_or_eq with lt | rfl
      · have step : (n : Rat) + 2 ≤ 2 ^ 53 := by exact_mod_cast (by omega : n + 2 ≤ 2 ^ 53)
        linarith
      · have strict := nearest.2.resolve_right fun tie => absurd tie.1 (by decide)
        norm_num at strict ⊢
        linarith
  · have far : (2 : Rat) ^ (53 : Int) ≤ v / 2 ^ (971 : Int) := by
      rw [← le_two_zpow_iff]
      have large := enough.resolve_left (by omega)
      exact (zpow_le_zpow_right₀ one_le_two (by omega)).trans large
    have high : ¬ v / 2 ^ (971 : Int) < 2 ^ 53 - 1 / 2 := by
      generalize v / 2 ^ (971 : Int) = x at far ⊢
      norm_num at far ⊢
      linarith
    simp only [high, false_iff]
    omega

/-- The significands and exponents that rounding ends in, with no highest exponent. -/
structure IsReduced (m : Nat) (e : Int) : Prop where
  short : m < 2 ^ 53
  low : -1074 ≤ e
  full : 2 ^ 52 ≤ m ∨ e = -1074

private theorem isReduced_of_partsOf {x : Float} {negative : Bool}
    (parts : partsOf x = .finite negative m e) : IsReduced m e ∧ e ≤ 971 := by
  have fraction : x.toBits.toNat % twoTo 52 < 2 ^ 52 := Nat.mod_lt _ (by decide)
  have biased : x.toBits.toNat / twoTo 52 % twoTo 11 < 2 ^ 11 := Nat.mod_lt _ (by decide)
  have power : twoTo 52 = 2 ^ 52 := rfl
  have most : twoTo 11 - 1 = 2047 := rfl
  unfold partsOf at parts
  dsimp only at parts
  split at parts
  · split at parts <;> cases parts
  · split at parts
    · cases parts
      exact ⟨⟨by omega, by omega, .inr rfl⟩, by omega⟩
    · cases parts
      rw [Int.ofNat_eq_natCast]
      exact ⟨⟨by omega, by omega, .inl (by omega)⟩, by omega⟩

/-- A higher exponent means a larger number. -/
theorem IsReduced.lt_of_lt (r : IsReduced m e) (r' : IsReduced k d) (lower : e < d) :
    (m * 2 ^ e : Rat) < k * 2 ^ d := by
  have low := r.low
  have full := r'.full.resolve_right (by omega)
  exact (mul_two_zpow_lt r.short lower).trans_le
    (mul_le_mul_of_nonneg_right (Nat.cast_le.mpr full) (two_zpow_pos d).le)

theorem IsReduced.unique (r : IsReduced m e) (r' : IsReduced k d)
    (same : (m * 2 ^ e : Rat) = k * 2 ^ d) : m = k ∧ e = d := by
  rcases lt_trichotomy e d with lower | rfl | higher
  · exact absurd same (r.lt_of_lt r' lower).ne
  · exact ⟨by exact_mod_cast mul_right_cancel₀ (two_zpow_pos e).ne' same, rfl⟩
  · exact absurd same (r'.lt_of_lt r higher).ne'

/-- Nothing lies between neighbours. -/
theorem IsReduced.succ_le (r : IsReduced m e) (r' : IsReduced k d)
    (lt : (m * 2 ^ e : Rat) < k * 2 ^ d) : ((m + 1 : Nat) * 2 ^ e : Rat) ≤ k * 2 ^ d := by
  have unit := two_zpow_pos e
  have higher : e ≤ d := not_lt.mp fun lower => (r'.lt_of_lt r lower).not_gt lt
  obtain ⟨j, rfl⟩ := Int.exists_add_of_le higher
  rw [mul_two_zpow_add] at lt ⊢
  rw [mul_lt_mul_iff_left₀ unit, Nat.cast_lt] at lt
  exact mul_le_mul_of_nonneg_right (Nat.cast_le.mpr lt) unit.le

private theorem IsReduced.exists_between (r : IsReduced m e) (r' : IsReduced k d) (even : m % 2 = 0)
    (even' : k % 2 = 0) (lt : (m * 2 ^ e : Rat) < k * 2 ^ d) : IsReduced (m + 1) e ∧
      (m * 2 ^ e : Rat) < (m + 1 : Nat) * 2 ^ e ∧ ((m + 1 : Nat) * 2 ^ e : Rat) < k * 2 ^ d := by
  have short := r.short
  have next : IsReduced (m + 1) e := ⟨by omega, r.low, r.full.imp_left Nat.le_succ_of_le⟩
  refine ⟨next, mul_lt_mul_of_pos_right (by exact_mod_cast m.lt_succ_self) (two_zpow_pos e), ?_⟩
  apply (r.succ_le r' lt).lt_of_ne
  intro same
  obtain ⟨rfl, -⟩ := next.unique r' same
  omega

/-- After a carry the number is the same, and it is even in the higher place. -/
theorem IsNearest.exists_reduced {n : Nat} {t : Int} (nearest : IsNearest n (v / 2 ^ t))
    (low : -1074 ≤ t) (enough : t = -1074 ∨ 2 ^ (t + 52) ≤ v) (below : v < 2 ^ (t + 53)) :
    ∃ m e, IsReduced m e ∧ IsBest v m e ∧ (e ≤ 971 ↔ v < limit) ∧
      shiftToTargetExponent Format.binary64 n t .exact = (⟨m, false, false⟩, e) := by
  have range := nearest.lt_limit_iff enough below
  have best := nearest.isBest enough
  obtain ⟨upper, lower⟩ := nearest.le_add_half
  have most : n ≤ 2 ^ 53 := by
    rw [lt_two_zpow_iff] at below
    apply le_of_cast_lt
    norm_num at below
    push_cast
    linarith
  rcases most.lt_or_eq with short | rfl
  · refine ⟨n, t, ⟨short, low, ?_⟩, best, ?_, shiftToTargetExponent_short short low⟩
    · apply enough.symm.imp_left
      intro full
      rw [le_two_zpow_iff] at full
      apply le_of_cast_lt
      norm_num at full
      push_cast
      linarith
    · rw [range]
      omega
  · have same : ((2 ^ 52 : Nat) : Rat) * 2 ^ (t + 1) = (2 ^ 53 : Nat) * 2 ^ t := by
      rw [zpow_add_one₀ two_ne_zero]
      push_cast
      ring
    refine ⟨2 ^ 52, t + 1, ⟨by decide, by omega, .inl le_rfl⟩, ?_, ?_,
      shiftToTargetExponent_carry low⟩
    · intro k d short least
      rw [same]
      exact ⟨(best k d short least).1, fun _ => .inl (by decide)⟩
    · rw [range]
      omega

private theorem IsRounding.exists_reduced {s : Sign} {u : UnpackedFloat} (h : IsRounding s v u) :
    ∃ m e, IsReduced m e ∧ IsBest v m e ∧ (e ≤ 971 ↔ v < limit) ∧ u = unpacked s m e := by
  obtain ⟨n, t, nearest, low, enough, below, carries⟩ := h.exists_nearest
  obtain ⟨m, e, reduced, best, range, last⟩ := nearest.exists_reduced low enough below
  exact ⟨m, e, reduced, best, range, carries m e last⟩

def packed (s : Sign) (m : Nat) (e : Int) : Float := .ofModel (.pack (unpacked s m e))

def ofInfinity (s : Sign) : Float := .ofModel (.pack (.infinity s))

private theorem packed_of_high (r : IsReduced m e) (high : 971 < e) (s : Sign) :
    packed s m e = ofInfinity s := by
  have full := r.full.resolve_right (by omega)
  have beyond : 2 ^ 11 ≤ (e + 1023 + 52).toNat + 1 := by omega
  have packs : UnpackedFloat.pack Format.binary64 (.finite s m e (by omega)) =
      UnpackedFloat.pack Format.binary64 (.infinity s) := if_pos beyond
  rw [packed, unpacked, dif_neg (by omega), ofInfinity]
  simp only [Float.Model.pack, packs]

/-- A result of rounding is packed as a zero, as a canonical number or as an infinity. -/
theorem packed_cases (r : IsReduced m e) :
    (m = 0 ∧ e = -1074 ∧ ∀ s, packed s m e = ofZero s) ∨
      (∃ c : IsCanonical m e, ∀ s, packed s m e = ofCanonical s c) ∨
      971 < e ∧ ∀ s, packed s m e = ofInfinity s := by
  rcases m.eq_zero_or_pos with rfl | pos
  · exact .inl ⟨rfl, r.full.resolve_left (by decide), fun s => rfl⟩
  · rcases le_or_gt e 971 with low | high
    · refine .inr (.inl ⟨⟨pos, r.short, r.low, low, r.full⟩, fun s => ?_⟩)
      rw [packed, unpacked, dif_neg pos.ne', ofCanonical]
    · exact .inr (.inr ⟨high, packed_of_high r high⟩)

private theorem neg_packed (r : IsReduced m e) : -packed .positive m e = packed .negative m e := by
  rcases packed_cases r with ⟨-, -, same⟩ | ⟨c, same⟩ | ⟨-, same⟩ <;> rw [same, same]
  · decide +kernel
  · exact neg_ofCanonical c
  · decide +kernel

private theorem packed_nonneg (r : IsReduced m e) : 0 ≤ packed .positive m e := by
  rcases packed_cases r with ⟨-, -, same⟩ | ⟨c, same⟩ | ⟨-, same⟩ <;> rw [same]
  · decide +kernel
  · have zero : (0 : Float).toModel.unpack = .zero .positive := by rfl
    rw [le_iff, unpack_ofCanonical, zero]
    rfl
  · decide +kernel

theorem partsOf_packed (r : IsReduced m e) (negative : Bool) :
    partsOf (packed (signOf negative) m e) =
      if e ≤ 971 then .finite negative m e else .infinite negative := by
  rcases packed_cases r with ⟨rfl, rfl, same⟩ | ⟨c, same⟩ | ⟨high, same⟩ <;> rw [same]
  · cases negative <;> decide +kernel
  · rw [if_pos c.high, partsOf_ofCanonical]
  · rw [if_neg (not_le.mpr high)]
    cases negative <;> decide +kernel

/-- Of two neighbours one has an odd significand, so between equally close doubles with even ones
there is a closer double. -/
theorem exists_closer {x y : Float} {negative other : Bool}
    (parts : partsOf x = .finite negative m e) (parts' : partsOf y = .finite other k d)
    (even : m % 2 = 0) (even' : k % 2 = 0) (lt : (m * 2 ^ e : Rat) < k * 2 ^ d)
    (tie : |v - m * 2 ^ e| = |v - k * 2 ^ d|) :
    ∃ z n, partsOf z = .finite false n e ∧ |v - n * 2 ^ e| < |v - m * 2 ^ e| := by
  obtain ⟨reduced, high⟩ := isReduced_of_partsOf parts
  obtain ⟨reduced', -⟩ := isReduced_of_partsOf parts'
  obtain ⟨next, above, below⟩ := reduced.exists_between reduced' even even' lt
  have packs := partsOf_packed next false
  rw [if_pos high] at packs
  refine ⟨_, m + 1, packs, ?_⟩
  have middle : v - m * 2 ^ e = k * 2 ^ d - v := by
    rcases abs_eq_abs.mp tie with same | opposite <;> linarith
  rw [abs_of_pos (by linarith : 0 < v - m * 2 ^ e), abs_lt]
  constructor <;> linarith

section Vanishing

variable {digits places : Nat} (vanishes : ¬ (0 < digits ∧ places ≤ 2048 + digits.log2))

include vanishes

/-- Behind too many places nothing is left to be rounded up. -/
theorem decimal_le : (digits / 10 ^ places : Rat) ≤ 2 ^ (-1075 : Int) := by
  rcases digits.eq_zero_or_pos with rfl | pos
  · simp
  · rw [div_le_iff₀ (by positivity)]
    have bits : (digits : Rat) ≤ 2 ^ ((digits.log2 : Int) + 1) := by
      exact_mod_cast (Nat.lt_log2_self (n := digits)).le
    have tens : (2 : Rat) ^ (places : Int) ≤ 10 ^ places := by
      rw [zpow_natCast]
      exact pow_le_pow_left₀ two_pos.le (by norm_num) places
    calc (digits : Rat) ≤ 2 ^ ((digits.log2 : Int) + 1) := bits
      _ ≤ 2 ^ (-1075 + places : Int) := zpow_le_zpow_right₀ one_le_two (by omega)
      _ = 2 ^ (-1075 : Int) * 2 ^ (places : Int) := zpow_add₀ two_ne_zero _ _
      _ ≤ 2 ^ (-1075 : Int) * 10 ^ places := mul_le_mul_of_nonneg_left tens (two_zpow_pos _).le

private theorem ofScientific_eq_zero :
    Float.ofScientific digits true places = ofZero .positive := by
  unfold Float.ofScientific
  split
  · next short =>
    obtain rfl : digits = 0 := by omega
    have known : places < Float.exactlyRepresentablePowersOfTen.size := Nat.lt_succ_of_le short.2
    obtain ⟨b, g, b_pos, unpacked, -⟩ := exists_of_isTenTo (isTenTo_powersOfTen ⟨places, known⟩)
    have quotient : UnpackedFloat.div Format.binary64 (.zero .positive)
        (.finite .positive b g b_pos) = .zero .positive := rfl
    have zero : (Nat.toUInt64 0).toFloat.toModel.unpack = .zero .positive := by rfl
    rw [← zero, ← unpacked] at quotient
    exact congrArg (fun u => Float.ofModel (Float.Model.pack u)) quotient
  · have zero : UnpackedFloat.ofScientific Format.binary64 digits (Int.negOfNat places) =
        .zero .positive := by
      have bits : (2 : Int) ^ Format.binary64.exponentBits = 2048 := by norm_num
      unfold UnpackedFloat.ofScientific
      split
      · rfl
      · rw [Int.negOfNat_eq, Int.ofNat_eq_natCast, if_neg (by omega), if_pos (by omega)]
    exact congrArg (fun u => Float.ofModel (Float.Model.pack u)) zero

end Vanishing

private theorem isNearest_zero (nonneg : 0 ≤ v) (small : v ≤ 2 ^ (-1075 : Int)) :
    IsNearest 0 (v / 2 ^ (-1074 : Int)) := by
  have above := div_nonneg nonneg (two_zpow_pos (-1074)).le
  have half : v / 2 ^ (-1074 : Int) ≤ 2 ^ (-1 : Int) := by
    rw [div_le_iff₀ (two_zpow_pos _), ← zpow_add₀ two_ne_zero]
    exact small
  generalize v / 2 ^ (-1074 : Int) = x at above half ⊢
  norm_num at half
  refine ⟨.inl (by push_cast; linarith), ?_⟩
  exact half.lt_or_eq.imp (fun lt => by push_cast; linarith)
    fun eq => ⟨rfl, by push_cast; linarith⟩

theorem exists_packed (digits places : Nat) : ∃ m e, IsReduced m e ∧
    IsBest (digits / 10 ^ places) m e ∧ (e ≤ 971 ↔ (digits / 10 ^ places : Rat) < limit) ∧
    Float.ofScientific digits true places = packed .positive m e := by
  by_cases formed : 0 < digits ∧ places ≤ 2048 + digits.log2
  · obtain ⟨u, read, rounding⟩ := exists_isRounding formed.1 formed.2
    obtain ⟨m, e, reduced, best, range, rfl⟩ := rounding.exists_reduced
    exact ⟨m, e, reduced, best, range, read⟩
  · have small := decimal_le formed
    have nearest := isNearest_zero (by positivity) small
    have below := small.trans_lt (zpow_lt_zpow_right₀ one_lt_two (by decide : -1075 < -1074 + 53))
    have range := nearest.lt_limit_iff (.inl rfl) below
    refine ⟨0, -1074, ⟨by decide, by decide, .inr rfl⟩, nearest.isBest (.inl rfl), ?_,
      ofScientific_eq_zero formed⟩
    rw [range]
    decide

end MailMarkup.Double

namespace MailMarkup.Decimal
open Double

/-- A double of the given sign that is closest to a magnitude. No finite double is closer, and the
significand is even if another finite double is equally close. -/
inductive IsClosest (negative : Bool) (v : Rat) (x : Float) : Prop
  | finite {m : Nat} {e : Int} (parts : partsOf x = .finite negative m e) (below : v < limit)
    (least : ∀ y other k d, partsOf y = .finite other k d → |v - m * 2 ^ e| ≤ |v - k * 2 ^ d|)
    (even : ∀ y other k d, partsOf y = .finite other k d → |v - m * 2 ^ e| = |v - k * 2 ^ d| →
      m % 2 = 0 ∨ (m * 2 ^ e : Rat) = k * 2 ^ d)
  | infinite (parts : partsOf x = .infinite negative) (beyond : limit ≤ v)

/-- Of equally close doubles with even significands, one between them is closer. -/
theorem IsClosest.unique {negative : Bool} {v : Rat} {x y : Float} (h : IsClosest negative v x)
    (h' : IsClosest negative v y) : x = y := by
  cases h with
  | infinite parts beyond =>
    cases h' with
    | infinite parts' => exact eq_of_partsOf (parts.trans parts'.symm) (by rw [parts]; nofun)
    | finite _ below => exact absurd below (not_lt.mpr beyond)
  | @finite m e parts below least even =>
    cases h' with
    | infinite _ beyond => exact absurd below (not_lt.mpr beyond)
    | @finite k d parts' _ least' even' =>
      obtain ⟨reduced, -⟩ := isReduced_of_partsOf parts
      obtain ⟨reduced', -⟩ := isReduced_of_partsOf parts'
      have tie := (least _ _ _ _ parts').antisymm (least' _ _ _ _ parts)
      by_cases same : (m * 2 ^ e : Rat) = k * 2 ^ d
      · obtain ⟨rfl, rfl⟩ := reduced.unique reduced' same
        exact eq_of_partsOf (parts.trans parts'.symm) (by rw [parts]; nofun)
      · have even := (even _ _ _ _ parts' tie).resolve_right same
        have even' := (even' _ _ _ _ parts tie.symm).resolve_right (Ne.symm same)
        rcases lt_or_gt_of_ne same with lt | gt
        · obtain ⟨_, _, packs, closer⟩ := exists_closer parts parts' even even' lt tie
          exact absurd closer (not_lt.mpr (least _ _ _ _ packs))
        · obtain ⟨_, _, packs, closer⟩ := exists_closer parts' parts even' even gt tie.symm
          exact absurd closer (not_lt.mpr (least' _ _ _ _ packs))
private theorem exists_numeral_eq_packed (whole fraction : List Char) : ∃ m e, IsReduced m e ∧
    IsBest (digitsValue (whole ++ fraction) / 10 ^ fraction.length) m e ∧
    (e ≤ 971 ↔ (digitsValue (whole ++ fraction) / 10 ^ fraction.length : Rat) < limit) ∧
    ∀ negative, numeral negative whole fraction = packed (signOf negative) m e := by
  obtain ⟨m, e, reduced, best, range, read⟩ :=
    exists_packed (digitsValue (whole ++ fraction)) fraction.length
  refine ⟨m, e, reduced, best, range, fun negative => ?_⟩
  rw [numeral, read]
  cases negative with
  | false => rfl
  | true => exact neg_packed reduced

/-- A numeral is read as the double that is closest to it. -/
theorem numeral_isClosest (negative : Bool) (whole fraction : List Char) :
    IsClosest negative (digitsValue (whole ++ fraction) / 10 ^ fraction.length)
      (numeral negative whole fraction) := by
  obtain ⟨m, e, reduced, best, range, written⟩ := exists_numeral_eq_packed whole fraction
  have parts := partsOf_packed reduced negative
  rw [← written] at parts
  by_cases high : e ≤ 971
  · rw [if_pos high] at parts
    refine .finite parts (range.mp high) ?_ ?_
    · intro y other k d finite
      obtain ⟨other, -⟩ := isReduced_of_partsOf finite
      exact (best k d other.short other.low).1
    · intro y other k d finite
      obtain ⟨other, -⟩ := isReduced_of_partsOf finite
      exact (best k d other.short other.low).2
  · rw [if_neg high] at parts
    exact .infinite parts (not_lt.mp (mt range.mpr high))

theorem isClosest_iff {negative : Bool} {whole fraction : List Char} {x : Float} :
    IsClosest negative (digitsValue (whole ++ fraction) / 10 ^ fraction.length) x ↔
      x = numeral negative whole fraction := by
  have closest := numeral_isClosest negative whole fraction
  constructor
  · exact fun h => h.unique closest
  · rintro rfl
    exact closest

theorem numeral_nonneg (whole fraction : List Char) : 0 ≤ numeral false whole fraction := by
  obtain ⟨m, e, reduced, -, -, written⟩ := exists_numeral_eq_packed whole fraction
  rw [written]
  exact packed_nonneg reduced

end MailMarkup.Decimal
