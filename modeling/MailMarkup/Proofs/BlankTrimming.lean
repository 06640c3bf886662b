import MailMarkup.Text.Blank
import MailMarkup.Text.DecimalDigit
import Mathlib.Data.List.DropRight

/-!
# Trimming blanks

A trimmed text starts and ends with a character that is not blank, so trimming it again changes
nothing. Only a blank text is trimmed to nothing, and only a blank text has no words. A text without
blanks is a word of its own.
-/
namespace MailMarkup.Text

theorem trim_eq (cs : List Char) : trim cs = (dropBlanks cs).rdropWhile isBlank := rfl

theorem dropBlanks_eq_nil_iff (cs : List Char) : dropBlanks cs = [] ↔ ∀ c ∈ cs, isBlank c := by
  simp [dropBlanks]

/-- Dropping blanks at the end leaves a text that starts without one as it starts. -/
theorem dropBlanks_trim (cs : List Char) : dropBlanks (trim cs) = trim cs := by
  rw [dropBlanks, List.dropWhile_eq_self_iff]
  intro nonempty
  have kept : trim cs <+: dropBlanks cs := List.rdropWhile_prefix isBlank _
  have longer : 0 < (dropBlanks cs).length := Nat.lt_of_lt_of_le nonempty kept.length_le
  rw [kept.getElem nonempty]
  exact List.dropWhile_get_zero_not isBlank cs longer

theorem trim_trim (cs : List Char) : trim (trim cs) = trim cs := by
  rw [trim_eq, dropBlanks_trim, trim_eq, List.rdropWhile_idempotent]

theorem trim_eq_nil_iff (cs : List Char) : trim cs = [] ↔ ∀ c ∈ cs, isBlank c := by
  rw [trim_eq, List.rdropWhile_eq_nil_iff]
  constructor
  · intro h
    rw [← dropBlanks_eq_nil_iff]
    by_contra nonempty
    have longer : 0 < (dropBlanks cs).length := List.length_pos_iff.mpr nonempty
    exact List.dropWhile_get_zero_not isBlank cs longer (h _ (List.getElem_mem longer))
  · intro h c hc
    exact h c ((List.dropWhile_sublist isBlank).subset hc)

/-- Trimming takes blanks away at both ends and nothing else. -/
theorem exists_blanks_around_trim (cs : List Char) :
    ∃ before after, cs = before ++ trim cs ++ after ∧
      (∀ c ∈ before, isBlank c) ∧ ∀ c ∈ after, isBlank c := by
  let rest := (dropBlanks cs).reverse
  refine ⟨cs.takeWhile isBlank, (rest.takeWhile isBlank).reverse, ?_, ?_, ?_⟩
  · have ends : trim cs ++ (rest.takeWhile isBlank).reverse = dropBlanks cs := by
      rw [trim, ← List.reverse_append, dropBlanks, List.takeWhile_append_dropWhile,
        List.reverse_reverse]
    rw [List.append_assoc, ends, dropBlanks, List.takeWhile_append_dropWhile]
  · exact fun c member => List.mem_takeWhile_imp member
  · exact fun c member => List.mem_takeWhile_imp (List.mem_reverse.mp member)

theorem infix_trim (cs : List Char) : trim cs <:+: cs := by
  obtain ⟨before, after, split, -, -⟩ := exists_blanks_around_trim cs
  exact ⟨before, after, split.symm⟩

theorem words_eq_nil_iff (cs : List Char) : words cs = [] ↔ ∀ c ∈ cs, isBlank c := by
  induction cs with
  | nil => exact iff_of_true rfl (List.forall_mem_nil _)
  | cons c cs ih =>
    unfold words
    split
    · next blank => simp [blank, ih]
    · next solid =>
      simp only [List.forall_mem_cons, solid, Bool.false_eq_true, false_and, iff_false]
      split
      · simp
      · split
        · simp
        · split <;> simp

theorem words_of_isBlank {c : Char} (blank : isBlank c = true) (cs : List Char) :
    words (c :: cs) = words cs := by
  rw [words.eq_def]
  exact if_pos blank

theorem words_ne_nil_of_solid {c : Char} (solid : isBlank c = false) (cs : List Char) :
    words (c :: cs) ≠ [] := by
  intro none
  have blank := (words_eq_nil_iff _).mp none c List.mem_cons_self
  rw [solid] at blank
  cases blank

/-- Behind a character that is not blank the word ends or goes on. -/
theorem words_cons {c : Char} (solid : isBlank c = false) (cs : List Char) :
    words (c :: cs) = [c] :: words cs ∨
      ∃ d rest w ws, cs = d :: rest ∧ isBlank d = false ∧ words cs = w :: ws ∧
        words (c :: cs) = (c :: w) :: ws := by
  rw [words.eq_def]
  simp only [solid, Bool.false_eq_true, if_false]
  cases cs with
  | nil => exact .inl rfl
  | cons d rest =>
    cases next : isBlank d with
    | true => exact .inl (by simp [next])
    | false =>
      obtain ⟨w, ws, found⟩ := List.exists_cons_of_ne_nil (words_ne_nil_of_solid next rest)
      exact .inr ⟨d, rest, w, ws, rfl, next, found, by simp [next, found]⟩

/-- A text that starts with a word starts with its first word. -/
theorem prefix_of_words {c : Char} {cs w : List Char} {ws : List (List Char)}
    (solid : isBlank c = false) (first : words (c :: cs) = w :: ws) : w <+: c :: cs := by
  induction cs generalizing c w ws with
  | nil =>
    rcases words_cons solid [] with ends | ⟨_, _, _, _, same, -⟩
    · rw [ends] at first
      cases first
      exact List.prefix_rfl
    · cases same
  | cons d cs ih =>
    rcases words_cons solid (d :: cs) with ends | ⟨_, _, w', ws', same, next, found, goesOn⟩
    · rw [ends] at first
      cases first
      exact ⟨d :: cs, rfl⟩
    · cases same
      rw [goesOn] at first
      cases first
      exact List.cons_prefix_cons.mpr ⟨rfl, ih next found⟩

theorem infix_of_mem_words {cs word : List Char} (member : word ∈ words cs) : word <:+: cs := by
  induction cs with
  | nil => cases member
  | cons c cs ih =>
    have later : word ∈ words cs → word <:+: c :: cs :=
      fun member => (ih member).trans (List.suffix_cons c cs).isInfix
    cases solid : isBlank c with
    | true =>
      rw [words_of_isBlank solid] at member
      exact later member
    | false =>
      rcases words_cons solid cs with ends | ⟨_, _, w, ws, -, -, found, goesOn⟩
      · rw [ends] at member
        rcases List.mem_cons.mp member with rfl | member
        · exact (List.prefix_append [c] cs).isInfix
        · exact later member
      · rw [goesOn] at member
        rcases List.mem_cons.mp member with rfl | member
        · exact (prefix_of_words solid goesOn).isInfix
        · exact later (found ▸ List.mem_cons_of_mem w member)

@[simp] theorem trimmed_trimmed (s : String) : trimmed (trimmed s) = trimmed s := by
  simp only [trimmed, String.toList_ofList, trim_trim]

theorem isBlankText_iff (s : String) : isBlankText s = true ↔ ∀ c ∈ s.toList, isBlank c :=
  List.all_eq_true

theorem trimmed_eq_empty_iff (s : String) : trimmed s = "" ↔ isBlankText s = true := by
  rw [isBlankText_iff, ← trim_eq_nil_iff, trimmed, String.ofList_eq_empty_iff]

theorem isBlankText_trimmed (s : String) : isBlankText (trimmed s) = isBlankText s := by
  rw [Bool.eq_iff_iff, ← trimmed_eq_empty_iff, trimmed_trimmed, trimmed_eq_empty_iff]

theorem wordsOf_eq_nil_iff (s : String) : wordsOf s = [] ↔ isBlankText s = true := by
  rw [isBlankText_iff, ← words_eq_nil_iff, wordsOf, List.map_eq_nil_iff]

theorem isBlank_of_isDigit {c : Char} (digit : c.isDigit = true) : isBlank c = false := by
  have bounds : 48 ≤ c.toNat ∧ c.toNat ≤ 57 := by
    simpa [Char.isDigit, UInt32.le_iff_toNat_le] using digit
  simp only [isBlank, Bool.or_eq_false_iff, Bool.and_eq_false_iff, decide_eq_false_iff_not,
    beq_eq_false_iff_ne]
  omega

/-- No run of ten digits meets the blanks. -/
theorem isBlank_of_isDecimalDigit {c : Char} (digit : isDecimalDigit c = true) :
    isBlank c = false := by
  have apart : decimalZeros.all (fun first =>
      (0x20 < first && first + 10 ≤ 0x85) || (0xA0 < first && first + 10 ≤ 0x1680) ||
        (0x1680 < first && first + 10 ≤ 0x2000) || 0x3000 < first) = true := by decide
  obtain ⟨first, known, bounds⟩ := List.any_eq_true.mp digit
  have here := List.all_eq_true.mp apart first known
  simp only [Bool.or_eq_true, Bool.and_eq_true, decide_eq_true_eq] at here bounds
  simp only [isBlank, Bool.or_eq_false_iff, Bool.and_eq_false_iff, decide_eq_false_iff_not,
    beq_eq_false_iff_ne]
  omega

theorem isDecimalDigit_of_isBlank {c : Char} (blank : isBlank c = true) :
    isDecimalDigit c = false := by
  cases digit : isDecimalDigit c with
  | false => rfl
  | true =>
    rw [isBlank_of_isDecimalDigit digit] at blank
    cases blank

theorem dropBlanks_of_solid {cs : List Char} (solid : ∀ c ∈ cs, isBlank c = false) :
    dropBlanks cs = cs := by
  rw [dropBlanks, List.dropWhile_eq_self_iff]
  intro nonempty
  simp [solid _ (List.getElem_mem nonempty)]

theorem trim_of_solid {cs : List Char} (solid : ∀ c ∈ cs, isBlank c = false) :
    trim cs = cs := by
  have reversed : ∀ c ∈ cs.reverse, isBlank c = false :=
    fun c member => solid c (List.mem_reverse.mp member)
  rw [trim, dropBlanks_of_solid solid, dropBlanks_of_solid reversed, List.reverse_reverse]

/-- A text without blanks is one word. -/
theorem words_of_solid {cs : List Char} (solid : ∀ c ∈ cs, isBlank c = false)
    (nonempty : cs ≠ []) : words cs = [cs] := by
  induction cs with
  | nil => exact absurd rfl nonempty
  | cons c rest ih =>
    obtain ⟨here, below⟩ := List.forall_mem_cons.mp solid
    unfold words
    rw [here]
    cases rest with
    | nil => rfl
    | cons d others =>
      obtain ⟨next, -⟩ := List.forall_mem_cons.mp below
      simp [next, ih below (List.cons_ne_nil d others)]

end MailMarkup.Text
