import MailMarkup.Proofs.BlankTrimming

/-!
# Splitting into words

A blank splits a text into parts that are split on their own, so blanks around a text do not count,
and words that are joined with spaces are the words of what they are joined to. No blank is in a
word, and a text of a single word is that word with blanks around it.
-/
namespace MailMarkup.Text

theorem words_append_cons {b : Char} (blank : isBlank b = true) (cs rest : List Char) :
    words (cs ++ b :: rest) = words cs ++ words rest := by
  induction cs with
  | nil => exact words_of_isBlank blank rest
  | cons c cs ih =>
    cases here : isBlank c with
    | true => rw [List.cons_append, words_of_isBlank here, words_of_isBlank here, ih]
    | false =>
      rw [List.cons_append, words.eq_def (c :: (cs ++ b :: rest)), words.eq_def (c :: cs)]
      simp only [here, Bool.false_eq_true, if_false]
      cases cs with
      | nil => simp [blank, words_of_isBlank blank]
      | cons d cs =>
        rw [List.cons_append] at ih ⊢
        cases next : isBlank d with
        | true => simp [next, ih]
        | false =>
          obtain ⟨w, ws, first⟩ := List.exists_cons_of_ne_nil (words_ne_nil_of_solid next cs)
          simp [next, ih, first]

theorem words_append_of_blank {cs after : List Char} (blank : ∀ c ∈ after, isBlank c = true) :
    words (cs ++ after) = words cs := by
  cases after with
  | nil => rw [List.append_nil]
  | cons b rest =>
    obtain ⟨here, below⟩ := List.forall_mem_cons.mp blank
    rw [words_append_cons here, (words_eq_nil_iff rest).mpr below, List.append_nil]

theorem words_blank_append {before cs : List Char} (blank : ∀ c ∈ before, isBlank c = true) :
    words (before ++ cs) = words cs := by
  induction before with
  | nil => rfl
  | cons b before ih =>
    obtain ⟨here, below⟩ := List.forall_mem_cons.mp blank
    rw [List.cons_append, words_of_isBlank here, ih below]

theorem words_trim (cs : List Char) : words (trim cs) = words cs := by
  obtain ⟨before, after, split, front, rear⟩ := exists_blanks_around_trim cs
  rw [split, words_append_of_blank rear, words_blank_append front, ← split]

@[simp] theorem wordsOf_trimmed (s : String) : wordsOf (trimmed s) = wordsOf s := by
  rw [wordsOf, trimmed, String.toList_ofList, words_trim, wordsOf]

/-- The first word ends before the first blank, and the other words stand behind it. -/
theorem words_cons_of_solid {c : Char} (solid : isBlank c = false) (cs : List Char) :
    words (c :: cs) = (c :: cs.takeWhile (!isBlank ·)) :: words (cs.dropWhile (!isBlank ·)) := by
  induction cs generalizing c with
  | nil => simp [words, solid]
  | cons d cs ih =>
    rw [words.eq_def]
    cases next : isBlank d with
    | true => simp [solid, next]
    | false => simp [solid, next, ih next]

/-- A word has characters, and none of them is blank. -/
theorem word_of_mem_words {cs word : List Char} (member : word ∈ words cs) :
    word ≠ [] ∧ ∀ c ∈ word, isBlank c = false := by
  induction cs generalizing word with
  | nil => cases member
  | cons c cs ih =>
    cases here : isBlank c with
    | true =>
      rw [words_of_isBlank here] at member
      exact ih member
    | false =>
      rcases words_cons here cs with ends | ⟨_, _, w, ws, -, -, found, goesOn⟩
      · rw [ends] at member
        rcases List.mem_cons.mp member with rfl | member
        · exact ⟨List.cons_ne_nil c [], List.forall_mem_singleton.mpr here⟩
        · exact ih member
      · rw [goesOn] at member
        rw [found] at ih
        rcases List.mem_cons.mp member with rfl | member
        · exact ⟨List.cons_ne_nil c w,
            List.forall_mem_cons.mpr ⟨here, (ih List.mem_cons_self).2⟩⟩
        · exact ih (List.mem_cons_of_mem w member)

theorem solid_of_mem_words {cs word : List Char} (member : word ∈ words cs) :
    ∀ c ∈ word, isBlank c = false := (word_of_mem_words member).2

/-- A word is a text of one word. -/
theorem wordsOf_of_mem {s word : String} (member : word ∈ wordsOf s) : wordsOf word = [word] := by
  obtain ⟨cs, found, rfl⟩ := List.mem_map.mp member
  obtain ⟨nonempty, solid⟩ := word_of_mem_words found
  rw [wordsOf, String.toList_ofList, words_of_solid solid nonempty]
  rfl

/-- Words with a space between neighbours are split where they were joined. -/
theorem wordsOf_joined {tokens : List String} (each : ∀ word ∈ tokens, wordsOf word = [word]) :
    wordsOf (joined " " tokens) = tokens := by
  induction tokens with
  | nil => rfl
  | cons word rest ih =>
    obtain ⟨here, below⟩ := List.forall_mem_cons.mp each
    cases rest with
    | nil => exact here
    | cons next others =>
      have shape : (joined " " (word :: next :: others)).toList =
          word.toList ++ ' ' :: (joined " " (next :: others)).toList := by simp [joined]
      rw [wordsOf, shape, words_append_cons rfl, List.map_append]
      exact congrArg₂ (· ++ ·) here (ih below)

private theorem exists_blanks_around_word {cs word : List Char} (single : words cs = [word]) :
    ∃ before after, cs = before ++ word ++ after ∧
      (∀ c ∈ before, isBlank c = true) ∧ ∀ c ∈ after, isBlank c = true := by
  induction cs generalizing word with
  | nil => cases single
  | cons c cs ih =>
    cases here : isBlank c with
    | true =>
      rw [words_of_isBlank here] at single
      obtain ⟨before, after, rfl, front, rear⟩ := ih single
      exact ⟨c :: before, after, rfl, List.forall_mem_cons.mpr ⟨here, front⟩, rear⟩
    | false =>
      rcases words_cons here cs with ends | ⟨d, rest, w, ws, rfl, next, found, goesOn⟩
      · rw [ends] at single
        obtain ⟨rfl, none⟩ := List.cons.inj single
        exact ⟨[], cs, rfl, List.forall_mem_nil _, (words_eq_nil_iff cs).mp none⟩
      · rw [goesOn] at single
        obtain ⟨rfl, rfl⟩ := List.cons.inj single
        obtain ⟨before, after, split, front, rear⟩ := ih found
        cases before with
        | nil => exact ⟨[], after, congrArg (c :: ·) split, front, rear⟩
        | cons b before =>
          obtain ⟨rfl, -⟩ := List.cons.inj split
          rw [front d List.mem_cons_self] at next
          cases next

/-- A text without blanks around it that has one word is that word. -/
theorem trim_eq_of_words {cs word : List Char} (single : words cs = [word]) : trim cs = word := by
  obtain ⟨before, after, rfl, front, rear⟩ := exists_blanks_around_word single
  have solid := solid_of_mem_words (single ▸ List.mem_singleton_self word)
  have nonempty : word ≠ [] := by
    rintro rfl
    have blank : ∀ c ∈ before ++ [] ++ after, isBlank c = true := by
      rw [List.append_nil, List.forall_mem_append]
      exact ⟨front, rear⟩
    rw [(words_eq_nil_iff _).mpr blank] at single
    cases single
  have kept : dropBlanks (before ++ word ++ after) = word ++ after := by
    rw [dropBlanks, List.append_assoc, List.dropWhile_append_of_pos front]
    obtain ⟨c, cs, rfl⟩ := List.exists_cons_of_ne_nil nonempty
    exact List.dropWhile_cons_of_neg (by simp [solid c List.mem_cons_self])
  rw [trim_eq, kept, List.rdropWhile, List.reverse_append,
    List.dropWhile_append_of_pos fun c member => rear c (List.mem_reverse.mp member)]
  have reversed : ∀ c ∈ word.reverse, isBlank c = false :=
    fun c member => solid c (List.mem_reverse.mp member)
  have whole : word.reverse.dropWhile isBlank = word.reverse := dropBlanks_of_solid reversed
  rw [whole, List.reverse_reverse]

theorem trimmed_eq_of_wordsOf {s word : String} (single : wordsOf s = [word]) :
    trimmed s = word := by
  obtain ⟨cs, found, rfl⟩ := List.map_eq_singleton_iff.mp single
  rw [trimmed, trim_eq_of_words found]

end MailMarkup.Text
