import MailMarkup.Proofs.DecimalText
import MailMarkup.Proofs.DoubleRange
import Mathlib

/-!
# Doubles and their parts

A finite double other than zero is a sign, a significand of at most 53 bits and an exponent, and the
leading bit is missing at the lowest exponent only. Its bits hold these parts and nothing else.
-/
namespace MailMarkup.Double
open Float.Model Float.Model.UnpackedFloat

/-- The significands and exponents of the finite doubles other than zero. -/
structure IsCanonical (m : Nat) (e : Int) : Prop where
  pos : 0 < m
  short : m < 2 ^ 53
  low : -1074 ≤ e
  high : e ≤ 971
  /-- Only at the lowest exponent the leading bit may be missing. -/
  full : 2 ^ 52 ≤ m ∨ e = -1074

/-- The bits are the sign, then the exponent, then the mantissa. -/
theorem toNat_packComponents (s : Sign) (e : BitVec 11) (m : BitVec 52) :
    (packComponents Format.binary64 s e m).toNat =
      s.toBitVec.toNat * 2 ^ 63 + e.toNat * 2 ^ 52 + m.toNat := by
  have upper : (s.toBitVec ++ e).toNat = s.toBitVec.toNat * 2 ^ 11 + e.toNat := by
    rw [BitVec.toNat_append, ← Nat.shiftLeft_add_eq_or_of_lt e.isLt, Nat.shiftLeft_eq]
  have all : (packComponents Format.binary64 s e m).toNat =
      (s.toBitVec ++ e).toNat * 2 ^ 52 + m.toNat := by
    rw [← Nat.shiftLeft_eq, Nat.shiftLeft_add_eq_or_of_lt m.isLt, ← BitVec.toNat_append]
    rfl
  rw [all, upper]
  ring

variable {m : Nat} {e : Int}

private theorem pack_full (c : IsCanonical m e) (full : 2 ^ 52 ≤ m) (s : Sign) :
    UnpackedFloat.pack Format.binary64 (.finite s m e c.pos) =
      packComponents Format.binary64 s (.ofNat 11 (e + 1023 + 52).toNat) (.ofNat 52 m) := by
  have log : m.log2 = 52 := (Nat.log2_eq_iff c.pos.ne').mpr ⟨full, c.short⟩
  rw [pack_finite c.pos c.high, if_pos (by rw [log])]

private theorem pack_low {m : Nat} (pos : 0 < m) (short : m < 2 ^ 52) (s : Sign) :
    UnpackedFloat.pack Format.binary64 (.finite s m (-1074) pos) =
      packComponents Format.binary64 s 0#11 (.ofNat 52 m) := by
  have log : m.log2 < 52 := (Nat.log2_lt pos.ne').mpr short
  rw [pack_finite pos (by decide), if_neg (by omega)]

private theorem toNat_append_full {m : Nat} (full : 2 ^ 52 ≤ m) (short : m < 2 ^ 53) :
    (1#1 ++ BitVec.ofNat 52 m).toNat = m := by
  rw [BitVec.toNat_append, ← Nat.shiftLeft_add_eq_or_of_lt (BitVec.isLt _), BitVec.toNat_ofNat]
  simp only [BitVec.toNat_ofNat, Nat.shiftLeft_eq]
  omega

private theorem unpack_pack_full (c : IsCanonical m e) (full : 2 ^ 52 ≤ m) (s : Sign) :
    UnpackedFloat.unpack Format.binary64
      (UnpackedFloat.pack Format.binary64 (.finite s m e c.pos)) = .finite s m e c.pos := by
  have low := c.low
  have high := c.high
  have biased : (BitVec.ofNat 11 (e + 1023 + 52).toNat).toNat = (e + 1023 + 52).toNat := by
    rw [BitVec.toNat_ofNat, Nat.mod_eq_of_lt (by omega)]
  have notHighest : BitVec.ofNat 11 (e + 1023 + 52).toNat ≠ -1#11 := by
    intro same
    rw [same] at biased
    have : (-1#11).toNat = 2047 := rfl
    omega
  have notLowest : BitVec.ofNat 11 (e + 1023 + 52).toNat ≠ 0#11 := by
    intro same
    rw [same, BitVec.toNat_zero] at biased
    omega
  rw [pack_full c full]
  simp only [UnpackedFloat.unpack, unpackExponent_packComponents, unpackMantissa_packComponents,
    unpackSign_packComponents, Sign.ofBitVec_toBitVec, if_neg notHighest, if_neg notLowest, biased,
    toNat_append_full full c.short]
  congr 1
  have : Format.binary64.exponentBias = 1023 := rfl
  omega

private theorem unpack_pack_low {m : Nat} (pos : 0 < m) (short : m < 2 ^ 52) (s : Sign) :
    UnpackedFloat.unpack Format.binary64
      (UnpackedFloat.pack Format.binary64 (.finite s m (-1074) pos)) =
        .finite s m (-1074) pos := by
  have mantissa : (BitVec.ofNat 52 m).toNat = m := by
    rw [BitVec.toNat_ofNat, Nat.mod_eq_of_lt short]
  have nonzero : BitVec.ofNat 52 m ≠ 0#52 := by
    intro same
    rw [same, BitVec.toNat_zero] at mantissa
    exact pos.ne mantissa
  have notHighest : 0#11 ≠ -1#11 := by decide
  rw [pack_low pos short]
  simp only [UnpackedFloat.unpack, unpackExponent_packComponents, unpackMantissa_packComponents,
    unpackSign_packComponents, Sign.ofBitVec_toBitVec, if_neg notHighest, if_true,
    dif_neg nonzero, mantissa]
  rfl

/-- Nothing is lost between a canonical number and its bits. -/
theorem unpack_pack (c : IsCanonical m e) (s : Sign) :
    UnpackedFloat.unpack Format.binary64
      (UnpackedFloat.pack Format.binary64 (.finite s m e c.pos)) = .finite s m e c.pos := by
  by_cases full : 2 ^ 52 ≤ m
  · exact unpack_pack_full c full s
  · obtain rfl := c.full.resolve_left full
    exact unpack_pack_low c.pos (not_le.mp full) s

/-- The double of a sign and a canonical number. -/
def ofCanonical (s : Sign) (c : IsCanonical m e) : Float := .ofModel (.pack (.finite s m e c.pos))

theorem unpack_ofCanonical (s : Sign) (c : IsCanonical m e) :
    (ofCanonical s c).toModel.unpack = .finite s m e c.pos := unpack_pack c s

theorem neg_ofCanonical (c : IsCanonical m e) :
    -ofCanonical .positive c = ofCanonical .negative c :=
  congrArg (fun u : UnpackedFloat => Float.ofModel (Float.Model.pack u.neg))
    (unpack_pack c .positive)

def ofZero (s : Sign) : Float := .ofModel (.pack (.zero s))

private theorem eq_ofModel_pack {x : Float} {u : UnpackedFloat}
    (same : x.toBits.toNat = (UnpackedFloat.pack Format.binary64 u).toNat) :
    x = .ofModel (Float.Model.pack u) := Float.toBits_inj.mp (UInt64.toNat_inj.mp same)

def signOf (negative : Bool) : Sign := if negative then .negative else .positive

private theorem toNat_toBitVec_signOf (negative : Bool) :
    (signOf negative).toBitVec.toNat = if negative then 1 else 0 := by
  cases negative <;> rfl

/-- The parts of a finite double are what it is made of. -/
theorem cases_of_isFinite {x : Float} (finite : x.isFinite = true) :
    (∃ negative, x = ofZero (signOf negative) ∧
      Decimal.partsOf x = .finite negative 0 (-1074)) ∨
    ∃ negative m e, ∃ c : IsCanonical m e, x = ofCanonical (signOf negative) c ∧
      Decimal.partsOf x = .finite negative m e := by
  have ordinary : x.toBits.toNat / 2 ^ 52 % 2 ^ 11 ≠ 2 ^ 11 - 1 :=
    Decimal.biased_of_isFinite finite
  have parts : Decimal.partsOf x =
      if x.toBits.toNat / 2 ^ 52 % 2 ^ 11 = 0 then
        .finite (decide (2 ^ 63 ≤ x.toBits.toNat)) (x.toBits.toNat % 2 ^ 52) (-1074)
      else .finite (decide (2 ^ 63 ≤ x.toBits.toNat)) (2 ^ 52 + x.toBits.toNat % 2 ^ 52)
        ((x.toBits.toNat / 2 ^ 52 % 2 ^ 11 : Nat) - 1075) := if_neg ordinary
  rw [parts]
  have below : x.toBits.toNat < 2 ^ 64 := x.toBits.toNat_lt
  split
  · by_cases zero : x.toBits.toNat % 2 ^ 52 = 0
    · left
      rw [zero]
      refine ⟨_, eq_ofModel_pack ?_, rfl⟩
      have packed (s : Sign) : (UnpackedFloat.pack Format.binary64 (.zero s)).toNat =
          s.toBitVec.toNat * 2 ^ 63 := (toNat_packComponents s 0#11 0#52).trans (by simp)
      rw [packed, toNat_toBitVec_signOf]
      simp only [decide_eq_true_eq]
      split <;> omega
    · right
      have c : IsCanonical (x.toBits.toNat % 2 ^ 52) (-1074) :=
        ⟨by omega, by omega, by decide, by decide, .inr rfl⟩
      refine ⟨_, _, _, c, eq_ofModel_pack ?_, rfl⟩
      rw [pack_low c.pos (by omega), toNat_packComponents, toNat_toBitVec_signOf]
      simp only [decide_eq_true_eq, BitVec.toNat_ofNat]
      split <;> omega
  · right
    have full : 2 ^ 52 ≤ 2 ^ 52 + x.toBits.toNat % 2 ^ 52 := by omega
    have c : IsCanonical (2 ^ 52 + x.toBits.toNat % 2 ^ 52)
        ((x.toBits.toNat / 2 ^ 52 % 2 ^ 11 : Nat) - 1075) :=
      ⟨by omega, by omega, by omega, by omega, .inl full⟩
    refine ⟨_, _, _, c, eq_ofModel_pack ?_, rfl⟩
    rw [pack_full c full, toNat_packComponents, toNat_toBitVec_signOf]
    simp only [decide_eq_true_eq, BitVec.toNat_ofNat]
    split <;> omega

/-- The parts of a double are read off its bits. -/
theorem partsOf_packComponents {x : Float} {negative : Bool} {b : BitVec 11} {f : BitVec 52}
    (bits : x.toBits.toNat = (packComponents Format.binary64 (signOf negative) b f).toNat) :
    Decimal.partsOf x =
      if b.toNat = 2047 then (if f.toNat = 0 then .infinite negative else .nan)
      else if b.toNat = 0 then .finite negative f.toNat (-1074)
      else .finite negative (2 ^ 52 + f.toNat) (b.toNat - 1075) := by
  have short := b.isLt
  have low := f.isLt
  have powers (n : Nat) : Decimal.twoTo n = 2 ^ n := rfl
  rw [toNat_packComponents, toNat_toBitVec_signOf] at bits
  have sign : decide (2 ^ 63 ≤ x.toBits.toNat) = negative := by
    rw [bits]
    cases negative <;> simp <;> omega
  have biased : x.toBits.toNat / 2 ^ 52 % 2 ^ 11 = b.toNat := by
    rw [bits]
    split <;> omega
  have fraction : x.toBits.toNat % 2 ^ 52 = f.toNat := by
    rw [bits]
    split <;> omega
  simp only [Decimal.partsOf, powers, sign, biased, fraction]
  rfl

theorem partsOf_ofCanonical (c : IsCanonical m e) (negative : Bool) :
    Decimal.partsOf (ofCanonical (signOf negative) c) = .finite negative m e := by
  have low := c.low
  have high := c.high
  have short := c.short
  by_cases full : 2 ^ 52 ≤ m
  · have bits : (ofCanonical (signOf negative) c).toBits.toNat =
        (packComponents Format.binary64 (signOf negative) (.ofNat 11 (e + 1023 + 52).toNat)
          (.ofNat 52 m)).toNat := congrArg BitVec.toNat (pack_full c full _)
    have biased : (BitVec.ofNat 11 (e + 1023 + 52).toNat).toNat = (e + 1023 + 52).toNat := by
      rw [BitVec.toNat_ofNat, Nat.mod_eq_of_lt (by omega)]
    have fraction : 2 ^ 52 + (BitVec.ofNat 52 m).toNat = m := by
      rw [BitVec.toNat_ofNat]
      omega
    rw [partsOf_packComponents bits, biased, fraction, if_neg (by omega), if_neg (by omega)]
    congr 1
    omega
  · obtain rfl := c.full.resolve_left full
    have bits : (ofCanonical (signOf negative) c).toBits.toNat =
        (packComponents Format.binary64 (signOf negative) 0#11 (.ofNat 52 m)).toNat :=
      congrArg BitVec.toNat (pack_low c.pos (not_le.mp full) _)
    have fraction : (BitVec.ofNat 52 m).toNat = m := by
      rw [BitVec.toNat_ofNat, Nat.mod_eq_of_lt (by omega)]
    rw [partsOf_packComponents bits, fraction]
    rfl

/-- A double that is a number is known by its parts. -/
theorem eq_of_partsOf {x y : Float} (same : Decimal.partsOf x = Decimal.partsOf y)
    (number : Decimal.partsOf x ≠ .nan) : x = y := by
  have powers (n : Nat) : Decimal.twoTo n = 2 ^ n := rfl
  have below := x.toBits.toNat_lt
  have below' := y.toBits.toNat_lt
  apply Float.toBits_inj.mp
  apply UInt64.toNat_inj.mp
  simp only [Decimal.partsOf, powers] at same number
  generalize x.toBits.toNat = a at same number below ⊢
  generalize y.toBits.toNat = b at same below' ⊢
  split_ifs at same number <;>
    simp only [Decimal.Parts.finite.injEq, Decimal.Parts.infinite.injEq, decide_eq_decide,
      Int.ofNat_eq_natCast, reduceCtorEq, not_true_eq_false, ne_eq] at same number <;> omega

end MailMarkup.Double
