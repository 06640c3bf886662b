import MailMarkup.Proofs.NumeralSpelling
import MailMarkup.Proofs.ShortestDecimal

/-!
# Reading back what is written

The written form of a finite double is a numeral, with its digits shifted by zeros or by the point,
and the double is the value of that numeral. The sign of a zero is kept.
-/
namespace MailMarkup.Decimal
open Double Numeral

theorem digitsValue_append (xs ys : List Char) :
    digitsValue (xs ++ ys) = ys.foldl (fun n c => 10 * n + digitValue c) (digitsValue xs) :=
  List.foldl_append

theorem digitsValue_digitText (n : Nat) : digitsValue (digitText n) = n :=
  Nat.ofDigitChars_ten_toDigits

theorem digitsValue_append_zeros (cs : List Char) (k : Nat) :
    digitsValue (cs ++ List.replicate k '0') = 10 ^ k * digitsValue cs := by
  rw [digitsValue_append]
  exact Nat.ofDigitChars_replicate_zero

theorem digitsValue_zeros_append (k : Nat) (cs : List Char) :
    digitsValue (List.replicate k '0' ++ cs) = digitsValue cs := by
  have zeros := digitsValue_append_zeros [] k
  rw [List.nil_append] at zeros
  rw [digitsValue_append, zeros]
  rfl

/-- Digits with a point among them or before them spell the number of the digits. -/
theorem exists_withPoint {digits : List Char} (all : ∀ c ∈ digits, c.isDigit = true)
    (places : Nat) (negative : Bool) :
    ∃ n : Numeral, n.negative = negative ∧ n.spelled = signed negative (withPoint digits places) ∧
      digitsValue (n.whole ++ n.fraction.getD []) = digitsValue digits ∧
      (n.fraction.getD []).length = places := by
  unfold withPoint
  split
  · next among =>
    have whole : digits.take (digits.length - places) ≠ [] := by
      rw [← List.length_pos_iff, List.length_take]
      omega
    refine ⟨⟨negative, digits.take (digits.length - places),
      some (digits.drop (digits.length - places)),
      fun c member => all c (List.mem_of_mem_take member),
      fun c member => all c (List.mem_of_mem_drop member), .inl whole⟩, rfl, rfl, ?_, ?_⟩
    · exact congrArg digitsValue (List.take_append_drop ..)
    · rw [Option.getD_some, List.length_drop]
      omega
  · next before =>
    have padded : ∀ c ∈ List.replicate (places - digits.length) '0' ++ digits,
        c.isDigit = true := by
      rw [List.forall_mem_append]
      exact ⟨fun c member => List.eq_of_mem_replicate member ▸ rfl, all⟩
    refine ⟨⟨negative, ['0'], some (List.replicate (places - digits.length) '0' ++ digits),
      List.forall_mem_singleton.mpr rfl, padded, .inl (List.cons_ne_nil _ _)⟩, rfl, rfl, ?_, ?_⟩
    · exact digitsValue_zeros_append (places - digits.length + 1) digits
    · rw [Option.getD_some, List.length_append, List.length_replicate]
      omega

/-- What is written in positional notation is a numeral, and its digits make up the number. -/
theorem exists_positional (s : Scientific) (negative : Bool) :
    ∃ n : Numeral, n.negative = negative ∧ n.spelled = signed negative s.positional ∧
      (digitsValue (n.whole ++ n.fraction.getD []) / 10 ^ (n.fraction.getD []).length : Rat) =
        s.digits * 10 ^ s.exponent := by
  have all : ∀ c ∈ digitText s.digits, c.isDigit = true := fun _ => isDigit_of_mem_digitText
  rw [zpow_eq_div (by norm_num : (10 : Rat) ≠ 0)]
  unfold Scientific.positional
  split
  · next whole =>
    have padded : ∀ c ∈ digitText s.digits ++ List.replicate s.exponent.toNat '0',
        c.isDigit = true := by
      rw [List.forall_mem_append]
      exact ⟨all, fun c member => List.eq_of_mem_replicate member ▸ rfl⟩
    have nonempty : digitText s.digits ≠ [] := Nat.toDigits_ne_nil
    have noPlaces : (-s.exponent).toNat = 0 := by omega
    refine ⟨⟨negative, digitText s.digits ++ List.replicate s.exponent.toNat '0', none, padded,
      List.forall_mem_nil _, .inl (by simp [nonempty])⟩, rfl, ?_, ?_⟩
    · rw [spelled, pointed, List.append_nil]
    · simp only [Option.getD_none, List.append_nil, List.length_nil, digitsValue_append_zeros,
        digitsValue_digitText, noPlaces, pow_zero, div_one]
      push_cast
      ring
  · next broken =>
    obtain ⟨n, sign, spelled, value, length⟩ := exists_withPoint all (-s.exponent).toNat negative
    have noZeros : s.exponent.toNat = 0 := by omega
    refine ⟨n, sign, spelled, ?_⟩
    rw [value, length, digitsValue_digitText, noZeros, pow_zero, mul_one_div]

/-- The written form of a finite double is a numeral of which that double is the value. -/
theorem exists_numeral_of_isFinite {x : Float} (finite : x.isFinite = true) :
    ∃ n : Numeral, (text x).toList = n.spelled ∧ n.value = x := by
  rcases cases_of_isFinite finite with ⟨negative, rfl, parts⟩ | ⟨negative, m, e, c, rfl, parts⟩
  · refine ⟨⟨negative, ['0'], none, List.forall_mem_singleton.mpr rfl, List.forall_mem_nil _,
      .inl (List.cons_ne_nil _ _)⟩, ?_, ?_⟩
    · rw [text, parts, String.toList_ofList]
      rfl
    · cases negative <;> decide +kernel
  · obtain ⟨n, sign, spelled, value⟩ := exists_positional (shortest m e) negative
    have holds := shortest_holds c
    rw [← value] at holds
    refine ⟨n, ?_, ?_⟩
    · rw [text, parts, String.toList_ofList, Parts.written, if_neg c.pos.ne', spelled]
    · rw [Numeral.value, numeral, c.ofScientific_eq holds, sign]
      cases negative
      · rfl
      · exact neg_ofCanonical c

end MailMarkup.Decimal
