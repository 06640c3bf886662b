import Mathlib.Data.Nat.Log
import Mathlib.Tactic.Ring

/-!
# The range of doubles

How large the result of an addition or a subtraction can be, by the exponents of its operands. A
sum is rounded to 53 bits, so its exponent is at most two above the larger one: one for the carry
of the sum and one for the carry of the rounding. As long as exponents stay below the highest, no
result is infinite.
-/
namespace MailMarkup.Double
open Float.Model Float.Model.UnpackedFloat

/-- Zero, or finite with an exponent up to `k`. -/
def IsWithin (k : Int) : UnpackedFloat → Prop
  | .zero _ => True
  | .finite _ _ exponent _ => exponent ≤ k
  | .infinity _ | .notANumber => False

theorem IsWithin.mono {k l : Int} {u : UnpackedFloat} (h : IsWithin k u) (le : k ≤ l) :
    IsWithin l u := by
  cases u with
  | zero => trivial
  | finite => exact Int.le_trans h le
  | infinity => exact h
  | notANumber => exact h

theorem IsWithin.isFinite {k : Int} {u : UnpackedFloat} (h : IsWithin k u) :
    u.isFinite = true := by
  cases u <;> first | rfl | cases h

theorem IsWithin.neg {k : Int} {u : UnpackedFloat} (h : IsWithin k u) : IsWithin k u.neg := by
  cases u <;> exact h

private theorem mantissa_shiftRight (em : ExtendedMantissa) (n : Nat) :
    (em >>> n).mantissa = em.mantissa / 2 ^ n := by
  induction n with
  | zero => exact (Nat.div_one _).symm
  | succ n ih =>
    have step : (em >>> (n + 1)).mantissa = (em >>> n).mantissa / 2 := rfl
    rw [step, ih, Nat.div_div_eq_div_mul, pow_succ]

private theorem roundedMantissa_le (em : ExtendedMantissa) :
    em.roundedMantissa ≤ em.mantissa + 1 := by
  obtain ⟨m, roundBit, stickyBit⟩ := em
  cases roundBit <;> cases stickyBit <;>
    simp only [ExtendedMantissa.roundedMantissa, ExtendedMantissa.accuracy,
      Accuracy.roundToNearestEven] <;> omega

theorem targetExponent_eq (total : Int) :
    Format.binary64.targetExponent total = max (total - 53) (-1074) := rfl

/-- A mantissa that is shifted to the exponent meant for it has at most 53 bits. -/
theorem mantissa_shiftToTargetExponent_lt (m : Nat) (e : Int) :
    (shiftToTargetExponent Format.binary64 m e .exact).1.mantissa < 2 ^ 53 := by
  simp only [shiftToTargetExponent, shiftToExponent, mantissa_shiftRight,
    ExtendedMantissa.ofMantissaAndAccuracy, targetExponent_eq, totalExponent]
  rw [Nat.div_lt_iff_lt_mul (Nat.two_pow_pos _), ← pow_add]
  refine Nat.lt_of_lt_of_le Nat.lt_log2_self (Nat.pow_le_pow_right (by decide) ?_)
  omega

private theorem exponent_shiftToTargetExponent (m : Nat) (e : Int) :
    (shiftToTargetExponent Format.binary64 m e .exact).2 =
      max e (max (m.log2 + 1 + e - 53) (-1074)) := by
  simp only [shiftToTargetExponent, shiftToExponent, targetExponent_eq, totalExponent]
  omega

private theorem log2_le_of_le {m n : Nat} (h : m ≤ 2 ^ n) : m.log2 ≤ n := by
  by_cases zero : m = 0
  · simp [zero]
  · have below : m < 2 ^ (n + 1) := by
      rw [pow_succ]
      have := Nat.two_pow_pos n
      omega
    exact Nat.lt_succ_iff.mp ((Nat.log2_lt zero).mpr below)

/-- Numbers are made of a mantissa that may be zero. -/
theorem of_zero_of_finite {P : UnpackedFloat → Prop} {s : Sign} {m : Nat} {e : Int} {isZero : Prop}
    [Decidable isZero] {nonzero : ¬ isZero → 0 < m} (zero : P (.zero s))
    (finite : ∀ hm, P (.finite s m e hm)) :
    P (if h : isZero then .zero s else .finite s m e (nonzero h)) := by
  by_cases h : isZero
  · rw [dif_pos h]
    exact zero
  · rw [dif_neg h]
    exact finite _

/-- The first shift leaves 53 bits, so rounding carries into one more at most. -/
theorem isWithin_roundWithAccuracy {k : Int} (low : -1074 ≤ k) (s : Sign) {m : Nat} {e : Int}
    (start : e ≤ k) (total : totalExponent m e ≤ k + 53) :
    IsWithin (k + 1) (roundWithAccuracy Format.binary64 s m e .exact) := by
  unfold roundWithAccuracy
  have bits := mantissa_shiftToTargetExponent_lt m e
  have exponent := exponent_shiftToTargetExponent m e
  unfold totalExponent at total
  generalize shiftToTargetExponent Format.binary64 m e .exact = first at bits exponent
  obtain ⟨em, e'⟩ := first
  dsimp only at bits exponent
  have rounded := roundedMantissa_le em
  have log : em.roundedMantissa.log2 ≤ 53 := log2_le_of_le (by omega)
  have last := exponent_shiftToTargetExponent em.roundedMantissa e'
  exact of_zero_of_finite trivial fun _ => last.trans_le (by omega)

private theorem shiftLeft_lt {m n bits : Nat} (short : m < 2 ^ bits) :
    m <<< n < 2 ^ (bits + n) := by
  rw [Nat.shiftLeft_eq, pow_add]
  exact Nat.mul_lt_mul_of_pos_right short (Nat.two_pow_pos n)

private theorem totalExponent_shiftLeft_le (m n : Nat) (e : Int) :
    totalExponent (m <<< n) (e - n) ≤ totalExponent m e := by
  have log : (m <<< n).log2 ≤ m.log2 + n := by
    by_cases zero : m = 0
    · simp [zero]
    · have short := shiftLeft_lt (n := n) (Nat.lt_log2_self (n := m))
      have nonzero : m <<< n ≠ 0 := by simp [zero]
      have := (Nat.log2_lt nonzero).mpr short
      omega
  unfold totalExponent
  omega

theorem isWithin_round {k : Int} (low : -1074 ≤ k) (s : Sign) {m : Nat} {e : Int}
    (total : totalExponent m e ≤ k + 53) :
    IsWithin (k + 1) (UnpackedFloat.round Format.binary64 s m e) := by
  unfold UnpackedFloat.round
  simp only [decreaseExponent, targetExponent_eq]
  refine isWithin_roundWithAccuracy low s ?_ ((totalExponent_shiftLeft_le m _ e).trans total)
  unfold totalExponent at total ⊢
  omega

theorem isWithin_normalize {k : Int} (low : -1074 ≤ k) {m : Int} {e : Int} (zero : Sign)
    (total : totalExponent m.natAbs e ≤ k + 53) :
    IsWithin (k + 1) (UnpackedFloat.normalize Format.binary64 m e zero) := by
  unfold UnpackedFloat.normalize
  split
  · next negative =>
    have magnitude : (-m).toNat = m.natAbs := by
      rw [compare_lt_iff_lt] at negative
      omega
    rw [magnitude]
    exact isWithin_round low _ total
  · trivial
  · next positive =>
    have magnitude : m.toNat = m.natAbs := by
      rw [compare_gt_iff_gt] at positive
      omega
    rw [magnitude]
    exact isWithin_round low _ total

/-- A mantissa of at most 53 bits. -/
def IsShort : UnpackedFloat → Prop
  | .finite _ mantissa _ _ => mantissa < 2 ^ 53
  | _ => True

theorem IsShort.neg {u : UnpackedFloat} (h : IsShort u) : IsShort u.neg := by
  cases u <;> exact h

private theorem natAbs_apply (s : Sign) (n : Int) : (s.apply n).natAbs = n.natAbs := by
  cases s
  · exact Int.natAbs_neg n
  · rfl

private theorem aligned_lt {m : Nat} {e k : Int} (low : Int) (short : m < 2 ^ 53) (le : e ≤ k) :
    m <<< (e - low).toNat < 2 ^ (53 + (k - low).toNat) :=
  Nat.lt_of_lt_of_le (shiftLeft_lt short) (Nat.pow_le_pow_right (by decide) (by omega))

/-- Both mantissas are written at the lower exponent, where neither exceeds that of `k`. -/
theorem isWithin_add {k : Int} (low : -1074 ≤ k) {u v : UnpackedFloat} (left : IsWithin k u)
    (right : IsWithin k v) (leftShort : IsShort u) (rightShort : IsShort v) :
    IsWithin (k + 2) (UnpackedFloat.add Format.binary64 u v) := by
  cases u with
  | infinity => cases left
  | notANumber => cases left
  | zero s =>
    cases v with
    | infinity => cases right
    | notANumber => cases right
    | zero t => cases s <;> cases t <;> trivial
    | finite => exact right.mono (by omega)
  | finite s m e hm =>
    cases v with
    | infinity => cases right
    | notANumber => cases right
    | zero t => exact left.mono (by omega)
    | finite t n f hn =>
      let last := min e f
      let sum := s.apply (m <<< (e - last).toNat : Nat) + t.apply (n <<< (f - last).toNat : Nat)
      have bounded : sum.natAbs < 2 ^ (53 + (k - last).toNat + 1) := by
        have leftAligned := aligned_lt last leftShort left
        have rightAligned := aligned_lt last rightShort right
        have triangle := Int.natAbs_add_le (s.apply (m <<< (e - last).toNat : Nat))
          (t.apply (n <<< (f - last).toNat : Nat))
        rw [natAbs_apply, natAbs_apply, Int.natAbs_natCast, Int.natAbs_natCast] at triangle
        rw [pow_succ]
        omega
      have total : totalExponent sum.natAbs last ≤ k + 1 + 53 := by
        have log : sum.natAbs.log2 < 53 + (k - last).toNat + 1 := by
          by_cases zero : sum.natAbs = 0
          · simp [zero]
          · exact (Nat.log2_lt zero).mpr bounded
        have le : last ≤ k := (min_le_left e f).trans left
        unfold totalExponent
        omega
      have rounded := isWithin_normalize (k := k + 1) (by omega) .positive total
      rwa [add_assoc] at rounded

theorem sub_eq_add_neg (u v : UnpackedFloat) :
    UnpackedFloat.sub Format.binary64 u v = UnpackedFloat.add Format.binary64 u v.neg := by
  have apply (s : Sign) (n : Int) : (-s).apply n = -s.apply n := by
    cases s
    · exact (Int.neg_neg n).symm
    · rfl
  cases u with
  | notANumber => cases v <;> rfl
  | infinity s => cases v <;> rfl
  | zero s => cases v <;> rfl
  | finite s m e hm =>
    cases v with
    | finite t n f hn =>
      let last := min e f
      have sums : s.apply (m <<< (e - last).toNat : Nat) - t.apply (n <<< (f - last).toNat : Nat) =
          s.apply (m <<< (e - last).toNat : Nat) + (-t).apply (n <<< (f - last).toNat : Nat) := by
        rw [apply, Int.sub_eq_add_neg]
      exact congrArg (UnpackedFloat.normalize Format.binary64 · last .positive) sums
    | _ => rfl

/-- What the bits of a double stand for. Only the highest exponent stands for no number, and the
lowest one for numbers without a leading bit. -/
theorem unpack_cases {P : UnpackedFloat → Prop} (b : BitVec Format.binary64.numBits)
    (highest : unpackExponent b = -1#11 → P .notANumber ∧ ∀ s, P (.infinity s))
    (zero : ∀ s, P (.zero s))
    (lowest : unpackExponent b = 0#11 → ∀ s hm, P (.finite s (unpackMantissa b).toNat
      ((unpackExponent b).toNat - 1075 + 1) hm))
    (ordinary : ∀ s hm, P (.finite s (1#1 ++ unpackMantissa b).toNat
      ((unpackExponent b).toNat - 1075) hm)) :
    P (UnpackedFloat.unpack Format.binary64 b) := by
  unfold UnpackedFloat.unpack
  refine iteInduction (fun same => ?_) fun _ => ?_
  · obtain ⟨notANumber, infinity⟩ := highest same
    exact iteInduction (fun _ => infinity _) fun _ => notANumber
  · refine iteInduction (fun same => ?_) fun _ => ordinary _ _
    exact of_zero_of_finite (zero _) (lowest same _)

theorem isShort_unpack (x : Float.Model) : IsShort x.unpack := by
  refine unpack_cases x.toBits.toBitVec (fun _ => ⟨trivial, fun _ => trivial⟩)
    (fun _ => trivial) ?_ ?_
  · intro _ _ _
    exact Nat.lt_of_lt_of_le (BitVec.isLt _) (by decide)
  · intro _ _
    exact BitVec.isLt _

/-- What is put together from its parts is within the exponent that is written, or the lowest. -/
theorem isWithin_unpack_packComponents {k : Int} (low : -1074 ≤ k) (s : Sign) {e : BitVec 11}
    (m : BitVec 52) (finite : e.toNat < 2047) (within : (e.toNat : Int) - 1075 ≤ k) :
    IsWithin k (UnpackedFloat.unpack Format.binary64 (packComponents Format.binary64 s e m)) := by
  have written : unpackExponent (packComponents Format.binary64 s e m) = e :=
    unpackExponent_packComponents
  refine unpack_cases _ ?_ (fun _ => trivial) ?_ ?_
  · intro highest
    rw [written] at highest
    subst highest
    exact absurd finite (by decide)
  · intro lowest _ _
    rw [lowest]
    exact low
  · intro _ _
    rw [written]
    exact within

/-- A number that fits is written with its exponent if it has all 53 bits. -/
theorem pack_finite {m : Nat} {e : Int} (pos : 0 < m) (high : e ≤ 971) (s : Sign) :
    UnpackedFloat.pack Format.binary64 (.finite s m e pos) =
      if m.log2 + 1 = 53 then
        packComponents Format.binary64 s (.ofNat 11 (e + 1023 + 52).toNat) (.ofNat 52 m)
      else packComponents Format.binary64 s 0#11 (.ofNat 52 m) := by
  have fits : ¬ 2 ^ 11 ≤ (e + 1023 + 52).toNat + 1 := by omega
  exact if_neg fits

theorem isWithin_pack {k : Int} (low : -1074 ≤ k) (high : k ≤ 971) {u : UnpackedFloat}
    (within : IsWithin k u) : IsWithin k (Float.Model.pack u).unpack := by
  cases u with
  | infinity => cases within
  | notANumber => cases within
  | zero s => exact isWithin_unpack_packComponents low s 0 (by decide) (by simp; omega)
  | finite s m e hm =>
    have le : e ≤ k := within
    have biased : (BitVec.ofNat 11 (e + 1023 + 52).toNat).toNat = (e + 1023 + 52).toNat := by
      rw [BitVec.toNat_ofNat, Nat.mod_eq_of_lt (by omega)]
    show IsWithin k (UnpackedFloat.unpack Format.binary64 (UnpackedFloat.pack _ _))
    rw [pack_finite hm (le.trans high)]
    split
    · exact isWithin_unpack_packComponents low s _ (by omega) (by omega)
    · exact isWithin_unpack_packComponents low s _ (by decide) (by simp; omega)

/-- A number between `-1e300` and `1e300`, and so no infinity. -/
def IsModerate (x : Float) : Prop := -1e300 ≤ x ∧ x ≤ 1e300

/-- The exponent of a finite value of the given sign. -/
def exponent? (s : Sign) : UnpackedFloat → Option Int
  | .finite t _ e _ => if s == t then some e else none
  | _ => none

private theorem exponent?_bounds :
    exponent? .positive (1e300 : Float).toModel.unpack = some 944 ∧
      exponent? .negative (-1e300 : Float).toModel.unpack = some 944 := by
  decide +kernel

private theorem exponent_le_of_isLE {e f : Int} {m n : Nat}
    (le : ((compare e f).then (compare m n)).isLE = true) : e ≤ f := by
  by_contra lt
  have greater : compare e f = .gt := compare_gt_iff_gt.mpr (not_le.mp lt)
  rw [greater] at le
  cases le

private theorem exponent_le_of_isGE {e f : Int} {m n : Nat}
    (ge : (some ((compare e f).then (compare m n)).swap).any (·.isLE) = true) : f ≤ e := by
  by_contra lt
  have less : compare e f = .lt := compare_lt_iff_lt.mpr (not_le.mp lt)
  rw [less] at ge
  cases ge

private theorem isWithin_of_between {k : Int} {low u high : UnpackedFloat}
    (lowExponent : exponent? .negative low = some k)
    (highExponent : exponent? .positive high = some k) (above : low.le u = true)
    (below : u.le high = true) : IsWithin k u := by
  cases low with
  | finite s m e hm =>
    cases high with
    | finite t n f hn =>
      cases s <;> cases lowExponent
      cases t <;> cases highExponent
      cases u with
      | zero => trivial
      | finite r l g hl =>
        cases r with
        | positive => exact exponent_le_of_isLE below
        | negative => exact exponent_le_of_isGE above
      | infinity r =>
        cases r with
        | positive => cases below
        | negative => cases above
      | notANumber => cases below
    | _ => cases highExponent
  | _ => cases lowExponent

/-- A finite double whose last place is worth at most `2 ^ k`. -/
def Reaches (k : Int) (x : Float) : Prop := IsWithin k x.toModel.unpack

theorem le_iff {x y : Float} : x ≤ y ↔ x.toModel.unpack.le y.toModel.unpack = true :=
  decide_eq_true_iff

theorem lt_iff {x y : Float} : x < y ↔ x.toModel.unpack.lt y.toModel.unpack = true :=
  decide_eq_true_iff

theorem IsModerate.reaches {x : Float} (h : IsModerate x) : Reaches 944 x :=
  isWithin_of_between exponent?_bounds.2 exponent?_bounds.1 (le_iff.mp h.1) (le_iff.mp h.2)

theorem Reaches.isFinite {k : Int} {x : Float} (h : Reaches k x) : x.isFinite = true :=
  IsWithin.isFinite h

theorem Reaches.add {k : Int} {x y : Float} (left : Reaches k x) (right : Reaches k y)
    (low : -1074 ≤ k) (high : k + 2 ≤ 971) : Reaches (k + 2) (x + y) :=
  isWithin_pack (by omega) high
    (isWithin_add low left right (isShort_unpack _) (isShort_unpack _))

theorem Reaches.sub {k : Int} {x y : Float} (left : Reaches k x) (right : Reaches k y)
    (low : -1074 ≤ k) (high : k + 2 ≤ 971) : Reaches (k + 2) (x - y) := by
  have within := isWithin_add low left (IsWithin.neg right) (isShort_unpack _)
    (isShort_unpack _).neg
  rw [← sub_eq_add_neg] at within
  exact isWithin_pack (by omega) high within

theorem le_of_float_lt {x y : Float} (h : x < y) : x ≤ y := by
  rw [lt_iff] at h
  rw [le_iff, UnpackedFloat.le, eq_of_beq h]
  rfl

/-- A finite number that is not at least zero is less. -/
theorem lt_zero_of_isFinite {x : Float} (finite : x.isFinite = true) (h : ¬ 0 ≤ x) : x < 0 := by
  rw [lt_iff]
  rw [le_iff] at h
  have zero : (0 : Float).toModel.unpack = .zero .positive := by rfl
  rw [zero] at h ⊢
  have finite : x.toModel.unpack.isFinite = true := finite
  cases unpacked : x.toModel.unpack with
  | finite s m e hm =>
    rw [unpacked] at h
    cases s with
    | positive => exact absurd rfl h
    | negative => rfl
  | zero => rw [unpacked] at h; exact absurd rfl h
  | infinity => rw [unpacked] at finite; cases finite
  | notANumber => rw [unpacked] at finite; cases finite

end MailMarkup.Double
