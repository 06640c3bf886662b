import MailMarkup.Proofs.DecimalRounding

/-!
# The shortest decimal

Whatever grid the search stops at, the point that it takes there lies in the interval. It does stop:
a grid that is finer than half an interval meets the upper half, and the last grid of the search is.
-/
namespace MailMarkup.Decimal
open Double

namespace Interval

variable {i : Interval} {k : Int} {n : Nat}

/-- The unit of an interval and the step of a grid, both in the same integral units. -/
def unitSize (i : Interval) (k : Int) : Nat := twoTo i.exponent.toNat * tenTo (-k).toNat

def stepSize (i : Interval) (k : Int) : Nat := tenTo k.toNat * twoTo (-i.exponent).toNat

private theorem unitSize_pos (i : Interval) (k : Int) : 0 < i.unitSize k :=
  Nat.mul_pos (Nat.two_pow_pos _) (Nat.pow_pos (by decide))

private theorem stepSize_pos (i : Interval) (k : Int) : 0 < i.stepSize k :=
  Nat.mul_pos (Nat.pow_pos (by decide)) (Nat.two_pow_pos _)

private theorem grid_eq (i : Interval) (k : Int) :
    (10 ^ k / 2 ^ i.exponent : Rat) = i.stepSize k / i.unitSize k := by
  have tens (n : Nat) : tenTo n = 10 ^ n := rfl
  have twos (n : Nat) : twoTo n = 2 ^ n := rfl
  rw [zpow_eq_div (by norm_num : (10 : Rat) ≠ 0), zpow_eq_div two_ne_zero, stepSize, unitSize, tens,
    tens, twos, twos]
  push_cast
  field_simp

/-- Grid points are compared with the ends of the interval in integers. -/
theorem holds_grid_iff : i.Holds (n * 10 ^ k) ↔
    (i.low * i.unitSize k < n * i.stepSize k ∨
        i.closed = true ∧ i.low * i.unitSize k = n * i.stepSize k) ∧
      (n * i.stepSize k < i.high * i.unitSize k ∨
        i.closed = true ∧ n * i.stepSize k = i.high * i.unitSize k) := by
  have unit : (0 : Rat) < i.unitSize k := by exact_mod_cast i.unitSize_pos k
  have value : (n * 10 ^ k / 2 ^ i.exponent : Rat) = n * i.stepSize k / i.unitSize k := by
    rw [mul_div_assoc, grid_eq, mul_div_assoc]
  rw [holds_iff, value, lt_div_iff₀ unit, eq_div_iff unit.ne', div_lt_iff₀ unit,
    div_eq_iff unit.ne']
  norm_cast

/-- The points on both sides of the middle are judged by the ends that they may pass. -/
theorem nearest?_holds (proper : i.low < i.middle ∧ i.middle < i.high)
    (found : i.nearest? k = some n) : i.Holds (n * 10 ^ k) := by
  have low := Nat.mul_lt_mul_of_pos_right proper.1 (i.unitSize_pos k)
  have high := Nat.mul_lt_mul_of_pos_right proper.2 (i.unitSize_pos k)
  have below := Nat.div_mul_le_self (i.middle * i.unitSize k) (i.stepSize k)
  have above := Nat.lt_div_mul_add (i.stepSize_pos k) (a := i.middle * i.unitSize k)
  rw [← Nat.succ_mul] at above
  rw [holds_grid_iff]
  unfold nearest? at found
  dsimp only at found
  split at found
  · next fits =>
    cases found
    exact ⟨fits.1.2, .inl (below.trans_lt high)⟩
  · split at found
    · next fits =>
      cases found
      exact ⟨.inl (low.trans above), fits⟩
    · cases found

/-- A grid that is finer than half the interval meets its upper half. -/
theorem nearest?_isSome (reaches : i.middle + 2 ≤ i.high)
    (fine : (10 : Rat) ^ k < 2 ^ (i.exponent + 1)) : (i.nearest? k).isSome = true := by
  have step : i.stepSize k < 2 * i.unitSize k := by
    have unit : (0 : Rat) < i.unitSize k := by exact_mod_cast i.unitSize_pos k
    rw [lt_two_zpow_iff, grid_eq, div_lt_iff₀ unit, zpow_one] at fine
    exact_mod_cast fine
  have below := Nat.div_mul_le_self (i.middle * i.unitSize k) (i.stepSize k)
  have fits : (i.middle * i.unitSize k / i.stepSize k + 1) * i.stepSize k <
      i.high * i.unitSize k := by
    have high := Nat.mul_le_mul_right (i.unitSize k) reaches
    rw [Nat.add_mul] at high ⊢
    omega
  unfold nearest?
  dsimp only
  split
  · rfl
  · exact (congrArg Option.isSome (if_pos (.inl fits))).trans rfl

end Interval

/-- A power of ten is below a power of two: `10 ^ 3` is below `2 ^ 10`, and `10` above `2 ^ 3`. -/
theorem ten_zpow_lt {c d : Int} (large : 0 ≤ c → 10 * c < 3 * d) (small : c < 0 → 3 * c < d) :
    (10 : Rat) ^ c < 2 ^ d := by
  rcases le_or_gt 0 c with nonneg | neg
  · have third : ((10 : Rat) ^ c) ^ (3 : ℕ) < (2 ^ d) ^ (3 : ℕ) := by
      calc ((10 : Rat) ^ c) ^ (3 : ℕ) = 1000 ^ c := by
            rw [← zpow_natCast, ← zpow_mul, mul_comm, zpow_mul]
            norm_num
        _ ≤ 1024 ^ c := zpow_le_zpow_left₀ nonneg (by norm_num) (by norm_num)
        _ = 2 ^ (10 * c) := by
            rw [zpow_mul]
            norm_num
        _ < 2 ^ (3 * d) := zpow_lt_zpow_right₀ one_lt_two (large nonneg)
        _ = (2 ^ d) ^ (3 : ℕ) := by rw [mul_comm, zpow_mul, ← zpow_natCast]; norm_num
    exact lt_of_pow_lt_pow_left₀ 3 (two_zpow_pos d).le third
  · obtain ⟨n, rfl⟩ := Int.exists_eq_neg_ofNat neg.le
    calc (10 : Rat) ^ (-n : Int) ≤ 8 ^ (-n : Int) := by
          rw [zpow_neg, zpow_neg, zpow_natCast, zpow_natCast]
          exact inv_anti₀ (by positivity) (pow_le_pow_left₀ (by norm_num) (by norm_num) n)
      _ = 2 ^ (3 * -n : Int) := by
          rw [zpow_mul]
          norm_num
      _ < 2 ^ d := zpow_lt_zpow_right₀ one_lt_two (small neg)

variable {m : Nat} {e : Int}

/-- The last grid of the search is finer than half the interval. -/
theorem fine_ceiling (c : IsCanonical m e) :
    (10 : Rat) ^ ((intervalOf m e).ceiling - 67) < 2 ^ ((intervalOf m e).exponent + 1) := by
  have low := c.low
  have high := c.high
  have log : (4 * m + 2).log2 < 55 := by
    rw [Nat.log2_lt (by omega)]
    have := c.short
    omega
  have exponent : (intervalOf m e).exponent = e - 2 := rfl
  have top : (intervalOf m e).high = 4 * m + 2 := rfl
  apply ten_zpow_lt <;>
    simp only [Interval.ceiling, exponent, top, Int.ofNat_eq_natCast] <;> split <;> omega

/-- The shortest decimal of a canonical number lies in its interval. -/
theorem shortest_holds (c : IsCanonical m e) :
    (intervalOf m e).Holds ((shortest m e).digits * 10 ^ (shortest m e).exponent) := by
  let search (n : Nat) : Option Scientific :=
    let k := (intervalOf m e).ceiling - Int.ofNat n
    ((intervalOf m e).nearest? k).map (Scientific.mk · k)
  have found : ((List.range 68).findSome? search).isSome = true := by
    rw [List.findSome?_isSome_iff]
    refine ⟨67, by decide, ?_⟩
    rw [Option.isSome_map]
    exact Interval.nearest?_isSome le_rfl (fine_ceiling c)
  obtain ⟨s, here⟩ := Option.isSome_iff_exists.mp found
  have same : shortest m e = s := by
    rw [shortest, if_neg c.pos.ne', Interval.shortest]
    exact congrArg (Option.getD · _) here
  obtain ⟨n, -, hit⟩ := List.exists_of_findSome?_eq_some here
  obtain ⟨digits, nearest, rfl⟩ := Option.map_eq_some_iff.mp hit
  rw [same]
  exact Interval.nearest?_holds (intervalOf_proper c.pos e) nearest

end MailMarkup.Decimal
