import MailMarkup.Proofs.DelimitedReaders

/-!
# Tokens are local

A token is read from its source alone: whatever comes after it, the same token is read, unless it is
a text that could go on. So the tokens of a text are also read when it stands in front of a tag in
another one, and a part of a text that tokens make up has those tokens.
-/
namespace MailMarkup.Xml

/-- A text cannot go on here. -/
def EndsText (cs : List Char) : Prop := cs.head?.any isNotTagStart = false

private theorem endsText_nil : EndsText [] := rfl

theorem EndsText.append {cs tail : List Char} (h : EndsText cs) (after : EndsText tail) :
    EndsText (cs ++ tail) := by
  cases cs with
  | nil => exact after
  | cons c cs => exact h

theorem EndsText.of_append {cs tail : List Char} (h : EndsText (cs ++ tail)) : EndsText cs := by
  cases cs with
  | nil => exact endsText_nil
  | cons c cs => exact h

/-- A text of which the characters are known. -/
def readBody (body rest : List Char) : Except Fault (Lexeme × List Char) := do
  if !body.all isAllowed then throw .forbiddenCharacter
  if (splitAt? [']', ']', '>'] body).isSome then throw .forbiddenCharacter
  let parts ← chunks body
  return (.text (textOf parts), rest)

private theorem readText_takes {cs rest : List Char} {lexeme : Lexeme}
    (read : readText cs = .ok (lexeme, rest)) :
    ∃ taken, cs = taken ++ rest ∧ Tagless taken ∧ EndsText rest ∧
      ∀ other, EndsText other → readText (taken ++ other) = .ok (lexeme, other) := by
  have run := IsRun.of_while isNotTagStart cs
  have steps (cs : List Char) : readText cs =
      readBody (cs.takeWhile isNotTagStart) (cs.dropWhile isNotTagStart) := rfl
  have settles (body : List Char) : Settles (readBody body) :=
    .ite (fun _ => .error _) fun _ => .ite (fun _ => .error _) fun _ => .bind fun _ => .ok _
  rw [steps] at read
  obtain ⟨rfl, again⟩ := settles _ _ _ _ read
  refine ⟨cs.takeWhile isNotTagStart, List.takeWhile_append_dropWhile.symm, fun inside => ?_,
    run.stops, fun other ends => ?_⟩
  · exact absurd (run.all _ inside) (by decide)
  · have other : IsRun isNotTagStart (cs.takeWhile isNotTagStart) other := ⟨run.all, ends⟩
    rw [steps, other.takeWhile_eq, other.dropWhile_eq, again]

/-- What a token takes off a text: no tag starts in it but with its first character, unless it ends
in a mark, and it takes the same off every other text, unless it is a text that could go on. -/
structure Takes (source : List Char) (lexeme : Lexeme) (rest : List Char) : Prop where
  shape : Tagless source.tail ∨ EndsInMark source
  again : (∀ other, readLexeme (source ++ other) = .ok (lexeme, other)) ∨
    EndsText rest ∧
      ∀ other, EndsText other → readLexeme (source ++ other) = .ok (lexeme, other)

theorem readLexeme_tag {c : Char} (name : c ≠ '!' ∧ c ≠ '?' ∧ c ≠ '/') (cs : List Char) :
    readLexeme ('<' :: c :: cs) = readTag (c :: cs) := by
  unfold readLexeme
  split
  all_goals simp_all

private theorem readLexeme_text {c : Char} (other : c ≠ '<') (cs : List Char) :
    readLexeme (c :: cs) = readText (c :: cs) := by
  unfold readLexeme
  split
  all_goals simp_all

private theorem Takes.of_mark {read : Reader Lexeme} {cs rest : List Char} {lexeme : Lexeme}
    (start : List Char) (delimits : Delimits EndsInMark read)
    (starts : ∀ cs, readLexeme (start ++ cs) = read cs) (result : read cs = .ok (lexeme, rest)) :
    ∃ source, start ++ cs = source ++ rest ∧ Takes source lexeme rest := by
  obtain ⟨taken, rfl, -, ends, again⟩ := delimits _ _ _ result
  refine ⟨start ++ taken, (List.append_assoc _ _ _).symm, .inr (ends.behind start), .inl ?_⟩
  intro other
  rw [List.append_assoc, starts, again]

private theorem readLexeme_takes {cs rest : List Char} {lexeme : Lexeme}
    (read : readLexeme cs = .ok (lexeme, rest)) (shorter : rest.length < cs.length) :
    ∃ source, cs = source ++ rest ∧ Takes source lexeme rest := by
  fun_cases readLexeme cs with
  | case1 cs =>
    exact Takes.of_mark ['<', '!', '-', '-'] readComment_delimits (fun _ => rfl) read
  | case2 cs => exact Takes.of_mark "<![CDATA[".toList readSection_delimits (fun _ => rfl) read
  | case3 =>
    rw [readLexeme] at read
    · cases read
    all_goals assumption
  | case4 cs => exact Takes.of_mark ['<', '?'] readInstruction_delimits (fun _ => rfl) read
  | case5 cs =>
    obtain ⟨taken, rfl, -, tagless, again⟩ := readClosing_delimits _ _ _ read
    exact ⟨'<' :: '/' :: taken, rfl, .inl (by simpa [Tagless] using tagless), .inl again⟩
  | case6 cs _ _ notMarked notInstruction notClosing =>
    have tag : readLexeme ('<' :: cs) = readTag cs := by
      rw [readLexeme] <;> assumption
    rw [tag] at read
    obtain ⟨taken, rfl, nonempty, tagless, again⟩ := readTag_delimits _ _ _ read
    obtain ⟨c, inner, rfl⟩ := List.exists_cons_of_ne_nil nonempty
    have name : c ≠ '!' ∧ c ≠ '?' ∧ c ≠ '/' :=
      ⟨fun same => notMarked _ (by rw [same]; rfl), fun same => notInstruction _ (by rw [same]; rfl),
        fun same => notClosing _ (by rw [same]; rfl)⟩
    refine ⟨'<' :: c :: inner, rfl, .inl tagless, .inl fun other => ?_⟩
    rw [List.cons_append, List.cons_append, readLexeme_tag name, ← List.cons_append, again]
  | case7 _ _ _ _ _ _ other =>
    have text : readLexeme cs = readText cs := by
      rw [readLexeme] <;> assumption
    rw [text] at read
    obtain ⟨taken, rfl, tagless, ends, again⟩ := readText_takes read
    have nonempty : taken ≠ [] := by
      rintro rfl
      exact Nat.lt_irrefl _ shorter
    obtain ⟨c, inner, rfl⟩ := List.exists_cons_of_ne_nil nonempty
    have notTag : c ≠ '<' := fun same => other _ (by rw [same]; rfl)
    refine ⟨c :: inner, rfl, .inl fun inside => tagless (List.mem_cons_of_mem c inside),
      .inr ⟨ends, fun text ends => ?_⟩⟩
    rw [List.cons_append, readLexeme_text notTag, ← List.cons_append, again text ends]

theorem Takes.readLexeme_eq {source rest other : List Char} {lexeme : Lexeme}
    (h : Takes source lexeme rest) (ends : EndsText rest → EndsText other) :
    readLexeme (source ++ other) = .ok (lexeme, other) := by
  rcases h.again with always | ⟨here, again⟩
  · exact always other
  · exact again other (ends here)

/-- The first token of a text takes its source, and the others are those of what is left. -/
theorem exists_rest_of_tokens {cs : List Char} {t : Token} {ts : List Token}
    (read : tokens cs = .ok (t :: ts)) :
    ∃ rest, cs = t.source ++ rest ∧ t.source ≠ [] ∧ Takes t.source t.lexeme rest ∧
      tokens rest = .ok ts := by
  rcases tokens_eq_ok read with ⟨-, ⟨⟩⟩ | ⟨_, rest, _, ⟨⟩, rfl, nonempty, first, readRest⟩
  have shorter : rest.length < (t.source ++ rest).length := by
    have positive := List.length_pos_iff.mpr nonempty
    rw [List.length_append]
    omega
  obtain ⟨source, whole, takes⟩ := readLexeme_takes first shorter
  rw [← List.append_cancel_right whole] at takes
  exact ⟨rest, rfl, nonempty, takes, readRest⟩

theorem tokens_nil : tokens [] = .ok [] := by
  rw [tokens, if_pos rfl]

theorem tokens_of_readLexeme {source rest : List Char} {lexeme : Lexeme}
    (read : readLexeme (source ++ rest) = .ok (lexeme, rest)) (nonempty : source ≠ []) :
    tokens (source ++ rest) = (tokens rest).map (⟨lexeme, source⟩ :: ·) := by
  have positive := List.length_pos_iff.mpr nonempty
  have shorter : rest.length < (source ++ rest).length := by
    rw [List.length_append]
    omega
  have taken : (source ++ rest).take ((source ++ rest).length - rest.length) = source := by
    rw [List.length_append, Nat.add_sub_cancel, List.take_left]
  rw [tokens, if_neg (List.append_ne_nil_of_left_ne_nil nonempty rest), read]
  simp only [if_pos shorter, taken]

theorem Takes.tokens_eq {source rest other : List Char} {lexeme : Lexeme}
    (h : Takes source lexeme rest) (nonempty : source ≠ []) (ends : EndsText rest → EndsText other) :
    tokens (source ++ other) = (tokens other).map (⟨lexeme, source⟩ :: ·) :=
  tokens_of_readLexeme (h.readLexeme_eq ends) nonempty

/-- A text in front of a tag has the tokens that it has alone. -/
theorem tokens_append {cs tail : List Char} {ts : List Token} (read : tokens cs = .ok ts)
    (ends : EndsText tail) : tokens (cs ++ tail) = (tokens tail).map (ts ++ ·) := by
  induction ts generalizing cs with
  | nil =>
    rcases tokens_eq_ok read with ⟨rfl, -⟩ | ⟨_, _, _, ⟨⟩, _⟩
    cases result : tokens tail with
    | error fault => rw [List.nil_append, result]; rfl
    | ok ts => rw [List.nil_append, result]; rfl
  | cons t ts ih =>
    obtain ⟨rest, rfl, nonempty, takes, readRest⟩ := exists_rest_of_tokens read
    rw [List.append_assoc, takes.tokens_eq nonempty fun here => here.append ends, ih readRest]
    cases tokens tail <;> rfl

/-- Where tokens end a text can be cut, and has those tokens before the cut. -/
theorem tokens_of_append {cs tail : List Char} {before after : List Token}
    (read : tokens (cs ++ tail) = .ok (before ++ after))
    (sources : before.flatMap Token.source = cs) :
    tokens cs = .ok before ∧ tokens tail = .ok after := by
  induction before generalizing cs with
  | nil =>
    cases sources
    exact ⟨tokens_nil, read⟩
  | cons t before ih =>
    obtain ⟨rest, whole, nonempty, takes, readRest⟩ := exists_rest_of_tokens read
    rw [← sources, List.flatMap_cons, List.append_assoc] at whole
    have left := List.append_cancel_left whole
    rw [← left] at takes readRest
    obtain ⟨first, others⟩ := ih readRest rfl
    refine ⟨?_, others⟩
    rw [← sources, List.flatMap_cons, takes.tokens_eq nonempty EndsText.of_append, first]
    rfl

end MailMarkup.Xml
