import MailMarkup.Proofs.ResolutionExactness
import MailMarkup.Proofs.WordSplitting
import Mathlib.Data.List.Forall2

/-!
# Lists of lengths

A rule for lengths accepts a text by the words that it is made of: their number, and of each of them
the sign and the unit. A zero may stand without a unit under every rule; if the rule has no unitless
form, the zero is given one of its units. What is read holds one length for each word, and every
unit in it is one of the rule.
-/
namespace MailMarkup
open Text

theorem mapM_eq_some_iff {α β : Type} {f : α → Option β} {xs : List α} {ys : List β} :
    xs.mapM f = some ys ↔ List.Forall₂ (fun x y => f x = some y) xs ys := by
  induction xs generalizing ys with
  | nil => cases ys <;> simp
  | cons x xs ih =>
    rw [List.mapM_cons]
    cases first : f x with
    | none => cases ys <;> simp [first]
    | some y =>
      cases rest : xs.mapM f with
      | none => cases ys <;> simp [first, ← ih, rest]
      | some others => cases ys <;> simp [first, ← ih, rest]

namespace LengthRule

variable {r : LengthRule} {l admitted : Length} {token : String} {tokens : List String}
  {lengths : List Length}

/-- The unit that a rule gives to a bare zero: pixels if it has them, and else its first unit. -/
def IsZeroUnit (r : LengthRule) (unit : LengthUnit) : Prop :=
  .px ∈ r.units ∧ unit = .px ∨ .px ∉ r.units ∧ r.units.head? = some unit

/-- What a rule makes of a length. -/
inductive Admits (r : LengthRule) (l : Length) : Length → Prop where
  | declared (sign : l.value < 0 → r.signed = true) (unit : l.unit ∈ r.units) : Admits r l l
  | zero {unit : LengthUnit} (sign : l.value < 0 → r.signed = true)
    (isZero : (l.value == 0) = true) (bare : l.unit = .unitless) (undeclared : .unitless ∉ r.units)
    (given : r.IsZeroUnit unit) : Admits r l ⟨l.value, unit⟩

private theorem zeroUnit_eq (r : LengthRule) :
    r.zeroUnit = if .px ∈ r.units then .px else r.units.head?.getD .px := by
  simp only [zeroUnit, List.contains_iff_mem]

private theorem isZeroUnit_zeroUnit (units : r.units ≠ []) : r.IsZeroUnit r.zeroUnit := by
  unfold IsZeroUnit
  rw [zeroUnit_eq]
  split
  · next pixels => exact .inl ⟨pixels, rfl⟩
  · next others =>
    obtain ⟨first, rest, same⟩ := List.exists_cons_of_ne_nil units
    exact .inr ⟨others, by simp [same]⟩

private theorem IsZeroUnit.eq_zeroUnit {unit : LengthUnit} (given : r.IsZeroUnit unit) :
    unit = r.zeroUnit := by
  rw [zeroUnit_eq]
  rcases given with ⟨pixels, rfl⟩ | ⟨others, first⟩
  · rw [if_pos pixels]
  · rw [if_neg others, first, Option.getD_some]

theorem IsZeroUnit.mem {unit : LengthUnit} (given : r.IsZeroUnit unit) : unit ∈ r.units := by
  rcases given with ⟨pixels, rfl⟩ | ⟨-, first⟩
  · exact pixels
  · exact List.mem_of_head? first

theorem Admits.unit_mem (h : r.Admits l admitted) : admitted.unit ∈ r.units := by
  cases h with
  | declared _ unit => exact unit
  | zero _ _ _ _ given => exact given.mem

private theorem isBareZero_iff :
    l.isBareZero = true ↔ (l.value == 0) = true ∧ l.unit = .unitless := by
  rw [Length.isBareZero, Bool.and_eq_true, decide_eq_true_iff]

private theorem sign_iff :
    ¬ (l.value < 0 ∧ r.signed = false) ↔ (l.value < 0 → r.signed = true) := by
  rw [not_and, Bool.not_eq_false]

theorem admits_of_admit? (units : r.units ≠ []) (h : r.admit? l = some admitted) :
    r.Admits l admitted := by
  unfold admit? at h
  split at h
  · cases h
  · next accepted =>
    have sign := sign_iff.mp accepted
    split at h
    · next known =>
      cases h
      exact .declared sign (List.contains_iff_mem.mp known)
    · next unknown =>
      split at h
      · next isZero =>
        cases h
        obtain ⟨isZero, bare⟩ := isBareZero_iff.mp isZero
        rw [List.contains_iff_mem, bare] at unknown
        exact .zero sign isZero bare unknown (isZeroUnit_zeroUnit units)
      · cases h

theorem Admits.admit? (h : r.Admits l admitted) : r.admit? l = some admitted := by
  cases h with
  | declared sign unit =>
    rw [LengthRule.admit?, if_neg (sign_iff.mpr sign), if_pos (List.contains_iff_mem.mpr unit)]
  | zero sign isZero bare undeclared given =>
    have unknown : ¬ r.units.contains l.unit = true := by rwa [List.contains_iff_mem, bare]
    rw [LengthRule.admit?, if_neg (sign_iff.mpr sign), if_neg unknown,
      if_pos (isBareZero_iff.mpr ⟨isZero, bare⟩), given.eq_zeroUnit]

theorem admit?_eq_some_iff (units : r.units ≠ []) :
    r.admit? l = some admitted ↔ r.Admits l admitted :=
  ⟨admits_of_admit? units, Admits.admit?⟩

/-- A length is admitted for its sign and its unit, or as a bare zero. -/
def IsAdmissible (r : LengthRule) (l : Length) : Prop :=
  (l.value < 0 → r.signed = true) ∧
    (l.unit ∈ r.units ∨ (l.value == 0) = true ∧ l.unit = .unitless)

private theorem exists_admits_iff (units : r.units ≠ []) :
    (∃ admitted, r.Admits l admitted) ↔ r.IsAdmissible l := by
  constructor
  · rintro ⟨admitted, h⟩
    cases h with
    | declared sign unit => exact ⟨sign, .inl unit⟩
    | zero sign isZero bare => exact ⟨sign, .inr ⟨isZero, bare⟩⟩
  · rintro ⟨sign, unit⟩
    by_cases known : l.unit ∈ r.units
    · exact ⟨l, .declared sign known⟩
    · obtain ⟨isZero, bare⟩ := unit.resolve_left known
      exact ⟨_, .zero sign isZero bare (bare ▸ known) (isZeroUnit_zeroUnit units)⟩

/-- What a rule makes of a token. -/
def Takes (r : LengthRule) (token : String) (admitted : Length) : Prop :=
  ∃ l, Length.read? token = some l ∧ r.Admits l admitted

/-- The tokens are as many as the rule asks for, and each is a length that it admits. -/
def Accepts (r : LengthRule) (tokens : List String) : Prop :=
  r.least ≤ tokens.length ∧ tokens.length ≤ r.most ∧
    ∀ token ∈ tokens, ∃ l, Length.read? token = some l ∧ r.IsAdmissible l

/-- The value that a rule makes of tokens: a length if it asks for one, and a list of lengths, one
for each token, if there may be more. -/
inductive Yields (r : LengthRule) : List String → Value → Prop where
  | length {token : String} {l : Length} (one : r.most = 1) (taken : r.Takes token l) :
    Yields r [token] (.length l)
  | shorthand {tokens : List String} {lengths : List Length} (several : 1 < r.most)
    (taken : List.Forall₂ r.Takes tokens lengths) : Yields r tokens (.shorthand lengths)

private theorem exists_takes_iff (units : r.units ≠ []) :
    (∃ admitted, r.Takes token admitted) ↔
      ∃ l, Length.read? token = some l ∧ r.IsAdmissible l := by
  simp only [Takes, ← exists_admits_iff units]
  constructor
  · rintro ⟨admitted, l, read, h⟩
    exact ⟨l, read, admitted, h⟩
  · rintro ⟨l, read, admitted, h⟩
    exact ⟨admitted, l, read, h⟩

theorem readAll?_eq_some_iff (units : r.units ≠ []) :
    r.readAll? tokens = some lengths ↔ r.least ≤ tokens.length ∧ tokens.length ≤ r.most ∧
      List.Forall₂ r.Takes tokens lengths := by
  have each : (tokens.mapM fun token => (Length.read? token).bind r.admit?) = some lengths ↔
      List.Forall₂ r.Takes tokens lengths := by
    simp only [mapM_eq_some_iff, Option.bind_eq_some_iff, admit?_eq_some_iff units]
    rfl
  rw [readAll?, ← each]
  split
  · next count => simp [count]
  · next count =>
    simp only [reduceCtorEq, false_iff]
    exact fun h => count ⟨h.1, h.2.1⟩

/-- What is read is what the rule yields; a rule for one length finds that there is one. -/
theorem read?_eq_some_iff {s : String} {value : Value} (least : 1 ≤ r.least)
    (units : r.units ≠ []) : r.read? s = some value ↔
      r.least ≤ (wordsOf s).length ∧ (wordsOf s).length ≤ r.most ∧ r.Yields (wordsOf s) value := by
  have bind : r.read? s = (r.readAll? (wordsOf s)).bind fun lengths =>
    if r.isShorthand then some (.shorthand lengths) else lengths.head?.map .length := rfl
  simp only [bind, Option.bind_eq_some_iff, readAll?_eq_some_iff units]
  constructor
  · rintro ⟨lengths, ⟨atLeast, atMost, taken⟩, found⟩
    refine ⟨atLeast, atMost, ?_⟩
    split at found
    · next several =>
      cases found
      exact .shorthand (of_decide_eq_true several) taken
    · next single =>
      rw [isShorthand, decide_eq_true_iff, not_lt] at single
      have one : (wordsOf s).length = 1 := by omega
      obtain ⟨token, word⟩ := List.length_eq_one_iff.mp one
      rw [word] at taken ⊢
      obtain ⟨l, rest, first, others, rfl⟩ := List.forall₂_cons_left_iff.mp taken
      cases found
      exact .length (by omega) first
  · rintro ⟨atLeast, atMost, yields⟩
    generalize wordsOf s = tokens at atLeast atMost yields
    cases yields with
    | length one taken =>
      refine ⟨_, ⟨atLeast, atMost, .cons taken .nil⟩, ?_⟩
      rw [if_neg (by simp [isShorthand, one])]
      rfl
    | shorthand several taken =>
      exact ⟨_, ⟨atLeast, atMost, taken⟩, if_pos (decide_eq_true several)⟩

private theorem exists_taken_iff (units : r.units ≠ []) :
    (∃ lengths, List.Forall₂ r.Takes tokens lengths) ↔
      ∀ token ∈ tokens, ∃ l, Length.read? token = some l ∧ r.IsAdmissible l := by
  induction tokens with
  | nil => simp
  | cons token rest ih =>
    rw [List.forall_mem_cons, ← ih, ← exists_takes_iff units]
    constructor
    · rintro ⟨lengths, taken⟩
      cases taken with
      | cons first others => exact ⟨⟨_, first⟩, _, others⟩
    · rintro ⟨⟨l, first⟩, lengths, others⟩
      exact ⟨l :: lengths, .cons first others⟩

/-- A text is read if its words are accepted, and only then. -/
theorem read?_succeeds_iff {s : String} (least : 1 ≤ r.least) (units : r.units ≠ []) :
    (∃ value, r.read? s = some value) ↔ r.Accepts (wordsOf s) := by
  simp only [read?_eq_some_iff least units, Accepts, ← exists_taken_iff units]
  generalize wordsOf s = tokens
  constructor
  · rintro ⟨value, atLeast, atMost, yields⟩
    cases yields with
    | length _ taken => exact ⟨atLeast, atMost, _, .cons taken .nil⟩
    | shorthand _ taken => exact ⟨atLeast, atMost, _, taken⟩
  · rintro ⟨atLeast, atMost, lengths, taken⟩
    by_cases several : 1 < r.most
    · exact ⟨_, atLeast, atMost, .shorthand several taken⟩
    · have one : tokens.length = 1 := by omega
      obtain ⟨token, rfl⟩ := List.length_eq_one_iff.mp one
      obtain ⟨l, rest, first, others, rfl⟩ := List.forall₂_cons_left_iff.mp taken
      exact ⟨_, atLeast, atMost, .length (by omega) first⟩

end LengthRule

/-- The lengths in a value. -/
def Value.lengths : Value → List Length
  | .length l => [l]
  | .shorthand lengths => lengths
  | _ => []

theorem LengthRule.Yields.unit_mem {r : LengthRule} {tokens : List String} {value : Value}
    (h : r.Yields tokens value) : ∀ l ∈ value.lengths, l.unit ∈ r.units := by
  cases h with
  | length _ taken =>
    obtain ⟨_, -, admits⟩ := taken
    exact List.forall_mem_singleton.mpr admits.unit_mem
  | shorthand _ taken =>
    unfold Value.lengths
    induction taken with
    | nil => exact List.forall_mem_nil _
    | cons first others ih =>
      obtain ⟨_, -, admits⟩ := first
      exact List.forall_mem_cons.mpr ⟨admits.unit_mem, ih⟩

/-- What the reading of a text under a rule comes to. -/
structure LengthRule.IsFollowed (r : LengthRule) (name raw : String)
    (result : Except Problem Value) : Prop where
  succeeds_iff : (∃ value, result = .ok value) ↔ r.Accepts (wordsOf raw)
  yields : ∀ value, result = .ok value → r.Yields (wordsOf raw) value
  units_declared : ∀ value, result = .ok value → ∀ l ∈ value.lengths, l.unit ∈ r.units
  /-- What is refused is named with the attribute and with what the rule expects. -/
  refused : ¬ r.Accepts (wordsOf raw) → ∃ problem, result = .error problem ∧
    problem = .invalidValue name (trimmed raw) (.lengths r) ∧
    problem.message = "Invalid value '" ++ trimmed raw ++ "' for attribute '" ++ name
      ++ "': expected " ++ r.describe

/-- Lengths are read as their rule says. -/
theorem Value.ofRaw_follows_rule (name raw : String) {r : LengthRule} (least : 1 ≤ r.least)
    (units : r.units ≠ []) : r.IsFollowed name raw (ofRaw name raw (.lengths r)) := by
  have read (value : Value) : ofRaw name raw (.lengths r) = .ok value ↔
      r.read? (trimmed raw) = some value := ofRaw_eq_ok_iff
  have yields (value : Value) (ok : ofRaw name raw (.lengths r) = .ok value) :
      r.Yields (wordsOf raw) value := by
    obtain ⟨-, -, yields⟩ := (LengthRule.read?_eq_some_iff least units).mp ((read value).mp ok)
    rwa [wordsOf_trimmed] at yields
  have succeeds : (∃ value, ofRaw name raw (.lengths r) = .ok value) ↔
      r.Accepts (wordsOf raw) := by
    simp only [read, LengthRule.read?_succeeds_iff least units, wordsOf_trimmed]
  refine { succeeds_iff := succeeds, yields := yields,
           units_declared := fun value ok => (yields value ok).unit_mem, refused := ?_ }
  intro refused
  refine ⟨_, ?_, rfl, rfl⟩
  rw [← succeeds, not_exists] at refused
  cases found : r.read? (trimmed raw) with
  | none => simp only [ofRaw, Value.read?, found]
  | some value => exact absurd ((read value).mpr found) (refused value)

/-- A bare zero has the first unit of a rule without pixels, and a sign where signs are allowed. -/
theorem Value.ofRaw_follows_rule_zero :
    let r : LengthRule := ⟨[.em, .percent], true, 2, 3⟩
    1 ≤ r.least ∧ r.units ≠ [] ∧ ∃ value, ofRaw "margin" " -0\t-1.5% " (.lengths r) = .ok value ∧
      value.lengths.map Length.text = ["-0em", "-1.5%"] ∧
      r.Yields (wordsOf " -0\t-1.5% ") value ∧ r.Accepts (wordsOf " -0\t-1.5% ") := by
  intro r
  have least : 1 ≤ r.least := by decide
  have units : r.units ≠ [] := by decide
  have follows := ofRaw_follows_rule "margin" " -0\t-1.5% " least units
  have given : (ofRaw "margin" " -0\t-1.5% " (.lengths r)).toOption.any (fun value =>
      value.lengths.map Length.text == ["-0em", "-1.5%"]) = true := by decide +kernel
  cases read : ofRaw "margin" " -0\t-1.5% " (.lengths r) with
  | error problem =>
    rw [read] at given
    cases given
  | ok value =>
    rw [read] at given
    exact ⟨least, units, value, rfl, beq_iff_eq.mp given, follows.yields value read,
      follows.succeeds_iff.mp ⟨value, read⟩⟩

end MailMarkup
