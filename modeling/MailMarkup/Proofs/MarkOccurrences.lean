import MailMarkup.Markup.Piece
import MailMarkup.Proofs.WordSplitting

/-!
# Occurrences of marks

A character that a mark does not have splits a text: the mark occurs in what is in front of it or in
what is behind it. So what is joined, escaped or written as an attribute holds a mark where it held
the mark before, and nowhere else. A search ends at the first occurrence.
-/
namespace MailMarkup.Markup
open Text

/-- What attributes are written with besides their names and values. -/
def frameChars : List Char := [' ', '=', '"', '&', 'q', 'u', 'o', 't', ';']

section Splitting

variable {mark before after cs : List Char} {c : Char}

theorem infix_append_cons_iff (apart : c ∉ mark) :
    mark <:+: before ++ c :: after ↔ mark <:+: before ∨ mark <:+: after := by
  constructor
  · intro occurs
    have fresh : ∀ {part : List Char}, part ⊆ mark → part <+: c :: after → part = [] := by
      intro part included front
      cases part with
      | nil => rfl
      | cons d part =>
        obtain ⟨rfl, -⟩ := List.cons_prefix_cons.mp front
        exact absurd (included List.mem_cons_self) apart
    rcases List.infix_append_iff.mp occurs with front | rear | ⟨part, part', rfl, front, rear⟩
    · exact .inl front
    · rcases List.infix_cons_iff.mp rear with here | below
      · rw [fresh (fun _ member => member) here]
        exact .inl List.nil_infix
      · exact .inr below
    · rw [fresh (List.subset_append_right part part') rear, List.append_nil]
      exact .inl front.isInfix
  · rintro (front | rear)
    · exact front.trans (List.prefix_append before _).isInfix
    · have behind : after <:+: before ++ c :: after := ⟨before ++ [c], [], by simp⟩
      exact rear.trans behind

variable (nonempty : mark ≠ [])
include nonempty

theorem infix_cons_iff_of_head (head : mark.head? ≠ some c) :
    mark <:+: c :: cs ↔ mark <:+: cs := by
  rw [List.infix_cons_iff]
  refine or_iff_right fun front => ?_
  obtain ⟨d, others, rfl⟩ := List.exists_cons_of_ne_nil nonempty
  obtain ⟨rfl, -⟩ := List.cons_prefix_cons.mp front
  exact head rfl

private theorem infix_cons_iff_of_not_mem (apart : c ∉ mark) : mark <:+: c :: cs ↔ mark <:+: cs :=
  infix_cons_iff_of_head nonempty fun head => apart (List.mem_of_mem_head? head)

private theorem infix_append_iff_of_not_mem (apart : ∀ c ∈ before, c ∉ mark) :
    mark <:+: before ++ cs ↔ mark <:+: cs := by
  induction before with
  | nil => rfl
  | cons c before ih =>
    obtain ⟨here, below⟩ := List.forall_mem_cons.mp apart
    rw [List.cons_append, infix_cons_iff_of_not_mem nonempty here, ih below]

theorem infix_concat_iff_of_last (last : mark.getLast? ≠ some c) :
    mark <:+: cs ++ [c] ↔ mark <:+: cs := by
  rw [List.infix_concat_iff]
  refine or_iff_right ?_
  rintro ⟨front, same⟩
  have whole := congrArg List.getLast? same
  rw [List.getLast?_append_of_ne_nil front nonempty, List.getLast?_concat] at whole
  exact last whole

/-- A quote that is written as its entity splits the text as the quote did. -/
theorem infix_append_escapeQuotes_iff (apart : ∀ c ∈ frameChars, c ∉ mark) :
    mark <:+: before ++ escapeQuotes cs ↔ mark <:+: before ++ cs := by
  induction cs generalizing before with
  | nil => rfl
  | cons c cs ih =>
    rw [escapeQuotes, List.flatMap_cons, ← escapeQuotes]
    split
    · next quote =>
      subst quote
      have below : mark <:+: [] ++ escapeQuotes cs ↔ mark <:+: [] ++ cs := ih
      have within : ['q', 'u', 'o', 't', ';'] ⊆ frameChars := by decide
      have entity : ∀ c ∈ ['q', 'u', 'o', 't', ';'], c ∉ mark :=
        fun c member => apart c (within member)
      have skipped : mark <:+: ['q', 'u', 'o', 't', ';'] ++ escapeQuotes cs ↔
          mark <:+: escapeQuotes cs := infix_append_iff_of_not_mem nonempty entity
      rw [List.nil_append, List.nil_append] at below
      rw [infix_append_cons_iff (apart '"' (by decide)), ← below, ← skipped]
      exact infix_append_cons_iff (apart '&' (by decide))
    · rw [← List.append_assoc, ih, List.append_assoc]
      rfl

theorem infix_escapeQuotes_iff (apart : ∀ c ∈ frameChars, c ∉ mark) :
    mark <:+: escapeQuotes cs ↔ mark <:+: cs := by
  have written : mark <:+: [] ++ escapeQuotes cs ↔ mark <:+: [] ++ cs :=
    infix_append_escapeQuotes_iff nonempty apart
  exact written

theorem infix_joined_iff (apart : ' ' ∉ mark) (words : List String) :
    mark <:+: (joined " " words).toList ↔ ∃ word ∈ words, mark <:+: word.toList := by
  induction words with
  | nil => simp [joined, nonempty]
  | cons word words ih =>
    cases words with
    | nil => simp [joined]
    | cons next others =>
      have shape : (joined " " (word :: next :: others)).toList =
          word.toList ++ ' ' :: (joined " " (next :: others)).toList := by simp [joined]
      rw [shape, infix_append_cons_iff apart, ih]
      simp only [List.exists_mem_cons_iff]

/-- A mark without blanks occurs in a word or not at all. -/
theorem infix_iff_exists_word (solid : ∀ c ∈ mark, isBlank c = false) (cs : List Char) :
    mark <:+: cs ↔ ∃ word ∈ words cs, mark <:+: word := by
  by_cases allSolid : ∀ c ∈ cs, isBlank c = false
  · cases cs with
    | nil =>
      have wordless : words [] = [] := rfl
      simp [wordless, nonempty]
    | cons c cs => simp [words_of_solid allSolid (List.cons_ne_nil c cs)]
  · push Not at allSolid
    obtain ⟨b, member, blank⟩ := allSolid
    rw [ne_eq, Bool.not_eq_false] at blank
    have apart : b ∉ mark := fun inMark => by
      rw [solid b inMark] at blank
      cases blank
    obtain ⟨front, rear, rfl⟩ := List.append_of_mem member
    rw [words_append_cons blank, infix_append_cons_iff apart, infix_iff_exists_word solid front,
      infix_iff_exists_word solid rear]
    simp only [List.mem_append, or_and_right, exists_or]
termination_by cs.length

theorem infix_attributesText_append_iff (apart : ∀ c ∈ frameChars, c ∉ mark)
    {attributes : Attributes} (named : ∀ a ∈ attributes, ¬ mark <:+: a.1.toList) :
    mark <:+: (attributesText attributes).toList ++ after ↔
      (∃ a ∈ attributes, ∃ value ∈ a.2, mark <:+: value.toList) ∨ mark <:+: after := by
  induction attributes with
  | nil => simp [attributesText]
  | cons a others ih =>
    obtain ⟨nameless, below⟩ := List.forall_mem_cons.mp named
    have ih := ih below
    obtain ⟨name, _ | value⟩ := a
    · simpa [attributesText] using ih
    · rw [attributesText]
      split
      · next empty =>
        simpa [empty, nonempty] using ih
      · have shape : (attributeText name value ++ attributesText others).toList ++ after =
            ' ' :: (name.toList ++ '=' :: '"' :: (escapeQuotes value.toList ++
              '"' :: ((attributesText others).toList ++ after))) := by
          simp [attributeText, escaped]
        have quote : '"' ∉ mark := apart _ (by decide)
        rw [shape, infix_cons_iff_of_not_mem nonempty (apart _ (by decide)),
          infix_append_cons_iff (apart _ (by decide)), or_iff_right nameless,
          infix_cons_iff_of_not_mem nonempty quote, infix_append_cons_iff quote,
          infix_escapeQuotes_iff nonempty apart, ih]
        simp [or_assoc]

end Splitting

/-- How many characters there are up to the end of the first occurrence of a mark. -/
def lengthThrough? (mark : List Char) : List Char → Option Nat
  | [] => none
  | c :: cs =>
    if mark <+: c :: cs then some mark.length else (lengthThrough? mark cs).map (· + 1)

/-- A search in a text that starts with other text, which ends with the mark, ends there if this is
the first occurrence, and earlier if it is not. -/
theorem exists_lengthThrough? {mark cs : List Char} (nonempty : mark ≠ []) (ends : mark <:+ cs)
    (rest : List Char) :
    ∃ n ≤ cs.length, lengthThrough? mark (cs ++ rest) = some n ∧
      (n = cs.length ↔ ¬ mark <:+: cs.dropLast) := by
  induction cs with
  | nil => exact absurd (List.suffix_nil.mp ends) nonempty
  | cons c cs ih =>
    by_cases front : mark <+: c :: (cs ++ rest)
    · refine ⟨mark.length, ends.length_le, if_pos front, ?_⟩
      have shorter : (c :: cs).dropLast.length + 1 = (c :: cs).length := by simp
      constructor
      · intro whole occurs
        have bound := occurs.length_le
        omega
      · intro first
        by_contra part
        have bound := ends.length_le
        have start : (c :: cs).dropLast <+: c :: (cs ++ rest) :=
          (List.dropLast_prefix _).trans (List.prefix_append (c :: cs) rest)
        exact first (List.prefix_of_prefix_length_le front start (by omega)).isInfix
    · have below : mark <:+ cs := by
        refine (List.suffix_cons_iff.mp ends).resolve_left fun same => front ?_
        rw [same]
        exact List.prefix_append (c :: cs) rest
      obtain ⟨n, bound, found, first⟩ := ih below
      obtain ⟨d, others, rfl⟩ :=
        List.exists_cons_of_ne_nil fun empty => nonempty (List.suffix_nil.mp (empty ▸ below))
      have later : ¬ mark <+: c :: (d :: others).dropLast := fun start => by
        refine front (start.trans (List.cons_prefix_cons.mpr ⟨rfl, ?_⟩))
        exact (List.dropLast_prefix _).trans (List.prefix_append (d :: others) rest)
      refine ⟨n + 1, Nat.succ_le_succ bound, ?_, ?_⟩
      · rw [List.cons_append, lengthThrough?, if_neg front, found, Option.map_some]
      · rw [List.dropLast_cons_cons, List.infix_cons_iff, or_iff_right later, ← first,
          List.length_cons, Nat.succ_inj]

end MailMarkup.Markup
