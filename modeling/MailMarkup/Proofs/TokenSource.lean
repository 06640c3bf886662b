import MailMarkup.Proofs.FirstFailure
import MailMarkup.Xml.Token

/-!
# The sources of tokens

Every reader takes what it reads off the front of a text and leaves an end of the text. A token has
what its reader took as its source, so the sources of all tokens put together are the text.
-/
namespace MailMarkup.Xml

variable {α β : Type}

/-- What a reader leaves, if it reads anything, is an end of the text. -/
def LeavesEnd (result : Except Fault (α × List Char)) (cs : List Char) : Prop :=
  ∀ a rest, result = .ok (a, rest) → rest <:+ cs

namespace LeavesEnd

theorem error (fault : Fault) (cs : List Char) :
    LeavesEnd (.error fault : Except Fault (α × List Char)) cs := nofun

theorem ok (a : α) {rest cs : List Char} (h : rest <:+ cs) :
    LeavesEnd (.ok (a, rest)) cs := by
  rintro _ _ ⟨⟩
  exact h

theorem of_suffix {result : Except Fault (α × List Char)} {cs inner : List Char}
    (h : LeavesEnd result inner) (inside : inner <:+ cs) : LeavesEnd result cs :=
  fun a rest read => (h a rest read).trans inside

/-- A reader that goes on where another one stopped. -/
theorem bind {first : Except Fault (α × List Char)} {cs : List Char}
    {next : α × List Char → Except Fault (β × List Char)} (before : LeavesEnd first cs)
    (after : ∀ a rest, LeavesEnd (next (a, rest)) rest) : LeavesEnd (first >>= next) cs := by
  intro b rest read
  obtain ⟨⟨a, middle⟩, readFirst, readNext⟩ := FirstFailure.bind_eq_ok_iff.mp read
  exact (after a middle b rest readNext).trans (before a middle readFirst)

/-- A computation that takes nothing off the text. -/
theorem bind_aside {first : Except Fault α} {cs : List Char}
    {next : α → Except Fault (β × List Char)} (after : ∀ a, LeavesEnd (next a) cs) :
    LeavesEnd (first >>= next) cs := by
  intro b rest read
  obtain ⟨a, -, readNext⟩ := FirstFailure.bind_eq_ok_iff.mp read
  exact after a b rest readNext

theorem map {result : Except Fault (α × List Char)} {cs : List Char} (f : α → β)
    (h : LeavesEnd result cs) : LeavesEnd (result.map fun p => (f p.1, p.2)) cs := by
  intro b rest read
  obtain ⟨⟨a, left⟩, readFirst, same⟩ := FirstFailure.map_eq_ok_iff.mp read
  cases same
  exact h a left readFirst

theorem ite {p : Prop} [Decidable p] {first second : Except Fault (α × List Char)}
    {cs : List Char} (yes : p → LeavesEnd first cs) (no : ¬ p → LeavesEnd second cs) :
    LeavesEnd (if p then first else second) cs := by
  split
  · exact yes ‹p›
  · exact no ‹¬ p›

end LeavesEnd

theorem dropSpaces_suffix (cs : List Char) : dropSpaces cs <:+ cs := List.dropWhile_suffix _

/-- The mark that a text is split at stands between the two parts. -/
theorem eq_of_splitAt? {mark cs before after : List Char}
    (found : splitAt? mark cs = some (before, after)) : cs = before ++ mark ++ after := by
  induction cs generalizing before with
  | nil => cases found
  | cons c cs ih =>
    rw [splitAt?] at found
    split at found
    · next starts =>
      obtain ⟨tail, same⟩ := List.isPrefixOf_iff_prefix.mp starts
      rw [← same, List.drop_left] at found
      cases found
      exact same.symm
    · obtain ⟨⟨first, second⟩, rest, same⟩ := Option.map_eq_some_iff.mp found
      cases same
      rw [ih rest]
      rfl

private theorem readUpTo_leavesEnd (mark cs : List Char) : LeavesEnd (readUpTo mark cs) cs := by
  rw [readUpTo]
  cases found : splitAt? mark cs with
  | none => exact .error _ _
  | some p =>
    obtain ⟨body, rest⟩ := p
    have whole := eq_of_splitAt? found
    exact .ite (fun _ => .ok _ ⟨body ++ mark, whole.symm⟩) fun _ => .error _ _

private theorem readChar_leavesEnd (c : Char) (cs : List Char) : LeavesEnd (readChar c cs) cs := by
  cases cs with
  | nil => exact .error _ _
  | cons d cs => exact .ite (fun _ => .ok _ (List.suffix_cons d cs)) fun _ => .error _ _

private theorem readName_leavesEnd (cs : List Char) : LeavesEnd (readName cs) cs := by
  rw [readName]
  cases nameOf? (cs.takeWhile isNamePart) with
  | none => exact .error _ _
  | some name => exact .ok _ (List.dropWhile_suffix _)

private theorem readQuoted_leavesEnd (quote : Char) (cs : List Char) :
    LeavesEnd (readQuoted quote cs) cs := by
  refine .bind ((readChar_leavesEnd quote _).of_suffix (List.dropWhile_suffix _)) ?_
  intro _ rest
  refine .ite (fun _ => ?_) fun _ => .error _ _
  exact .bind_aside fun _ => .ok _ (List.suffix_refl _)

private theorem readValue_leavesEnd (cs : List Char) : LeavesEnd (readValue cs) cs := by
  fun_cases readValue cs with
  | case1 cs => exact (readQuoted_leavesEnd _ cs).of_suffix (List.suffix_cons _ cs)
  | case2 cs => exact (readQuoted_leavesEnd _ cs).of_suffix (List.suffix_cons _ cs)
  | case3 => exact .error _ _
  | case4 => exact .error _ _

private theorem readAttribute_leavesEnd (cs : List Char) : LeavesEnd (readAttribute cs) cs := by
  refine .bind (readName_leavesEnd cs) fun name rest => ?_
  refine .bind ((readChar_leavesEnd '=' _).of_suffix (dropSpaces_suffix _)) fun _ rest => ?_
  refine .bind ((readValue_leavesEnd _).of_suffix (dropSpaces_suffix _)) fun value rest => ?_
  exact .ok _ (List.suffix_refl _)

private theorem readAttributes_leavesEnd (cs : List Char) : LeavesEnd (readAttributes cs) cs := by
  have behind {cs rest : List Char} {c : Char} (here : dropSpaces cs = c :: rest) : rest <:+ cs :=
    (List.suffix_cons c rest).trans (here ▸ dropSpaces_suffix cs)
  fun_induction readAttributes cs with
  | case2 cs rest here => exact .ok _ (behind here)
  | case3 cs rest here =>
    have closed := (readChar_leavesEnd '>' rest).map fun _ => (([] : List Attribute), true)
    exact closed.of_suffix (behind here)
  | case5 cs c rest _ _ here _ first others read _ ih =>
    have begins : c :: rest <:+ cs := here ▸ dropSpaces_suffix cs
    have left := (readAttribute_leavesEnd _ first others read).trans begins
    exact (ih.map fun p => (first :: p.1, p.2)).of_suffix left
  | case1 => exact .error _ _
  | case4 => exact .error _ _
  | case6 => exact .error _ _
  | case7 => exact .error _ _

private theorem readTag_leavesEnd (cs : List Char) : LeavesEnd (readTag cs) cs := by
  refine .bind (readName_leavesEnd cs) fun name rest => ?_
  refine .bind (readAttributes_leavesEnd rest) fun ⟨attributes, isEmpty⟩ rest => ?_
  exact .ok _ (List.suffix_refl _)

private theorem readClosing_leavesEnd (cs : List Char) : LeavesEnd (readClosing cs) cs := by
  refine .bind (readName_leavesEnd cs) fun name rest => ?_
  refine .bind ((readChar_leavesEnd '>' _).of_suffix (dropSpaces_suffix _)) fun _ rest => ?_
  exact .ok _ (List.suffix_refl _)

private theorem readComment_leavesEnd (cs : List Char) : LeavesEnd (readComment cs) cs := by
  refine .bind (readUpTo_leavesEnd _ cs) fun body rest => ?_
  refine .ite (fun _ => .error _ _) fun _ => ?_
  exact .ok _ (List.suffix_refl _)

private theorem readInstruction_leavesEnd (cs : List Char) : LeavesEnd (readInstruction cs) cs := by
  refine .ite (fun _ => .error _ _) fun _ => .ite (fun _ => .error _ _) fun _ => ?_
  have inside : dropSpaces (cs.dropWhile isNamePart) <:+ cs :=
    (dropSpaces_suffix _).trans (List.dropWhile_suffix _)
  refine .bind ((readUpTo_leavesEnd _ _).of_suffix inside) fun _ rest => ?_
  exact .ok _ (List.suffix_refl _)

private theorem readSection_leavesEnd (cs : List Char) : LeavesEnd (readSection cs) cs := by
  refine .bind (readUpTo_leavesEnd _ cs) fun body rest => ?_
  exact .ok _ (List.suffix_refl _)

private theorem readText_leavesEnd (cs : List Char) : LeavesEnd (readText cs) cs := by
  refine .ite (fun _ => .error _ _) fun _ => .ite (fun _ => .error _ _) fun _ => ?_
  exact .bind_aside fun _ => .ok _ (List.dropWhile_suffix _)

theorem readLexeme_leavesEnd (cs : List Char) : LeavesEnd (readLexeme cs) cs := by
  have drop (n : Nat) : cs.drop n <:+ cs := List.drop_suffix n cs
  fun_cases readLexeme cs with
  | case1 cs => exact (readComment_leavesEnd cs).of_suffix (drop 4)
  | case2 cs => exact (readSection_leavesEnd cs).of_suffix (drop 9)
  | case3 => exact .error _ _
  | case4 cs => exact (readInstruction_leavesEnd cs).of_suffix (drop 2)
  | case5 cs => exact (readClosing_leavesEnd cs).of_suffix (drop 2)
  | case6 cs => exact (readTag_leavesEnd cs).of_suffix (drop 1)
  | case7 => exact readText_leavesEnd cs

/-- The first token of a text takes its source off the front, and the others are those of what is
left. -/
theorem tokens_eq_ok {cs : List Char} {ts : List Token} (read : tokens cs = .ok ts) :
    cs = [] ∧ ts = [] ∨ ∃ t rest others, ts = t :: others ∧ cs = t.source ++ rest ∧
      t.source ≠ [] ∧ readLexeme cs = .ok (t.lexeme, rest) ∧ tokens rest = .ok others := by
  rw [tokens] at read
  split at read
  · next empty =>
    cases read
    exact .inl ⟨empty, rfl⟩
  · split at read
    · cases read
    · next lexeme rest first =>
      split at read
      · next shorter =>
        obtain ⟨others, readRest, same⟩ := FirstFailure.map_eq_ok_iff.mp read
        obtain ⟨source, whole⟩ := readLexeme_leavesEnd cs lexeme rest first
        have length : cs.length - rest.length = source.length := by
          rw [← whole, List.length_append, Nat.add_sub_cancel]
        have taken : cs.take (cs.length - rest.length) = source := by
          rw [length, ← whole, List.take_left]
        rw [taken] at same
        refine .inr ⟨_, rest, others, same.symm, whole.symm, ?_, first, readRest⟩
        rintro rfl
        rw [← whole] at shorter
        exact Nat.lt_irrefl _ shorter
      · cases read

/-- The sources of all tokens put together are the text. -/
theorem tokens_source {cs : List Char} {ts : List Token} (read : tokens cs = .ok ts) :
    ts.flatMap Token.source = cs := by
  induction ts generalizing cs with
  | nil =>
    rcases tokens_eq_ok read with ⟨rfl, -⟩ | ⟨_, _, _, ⟨⟩, _⟩
    rfl
  | cons t ts ih =>
    rcases tokens_eq_ok read with ⟨_, ⟨⟩⟩ | ⟨_, rest, _, ⟨⟩, whole, -, -, readRest⟩
    rw [List.flatMap_cons, ih readRest, whole]

theorem source_ne_nil_of_mem_tokens {cs : List Char} {ts : List Token}
    (read : tokens cs = .ok ts) : ∀ t ∈ ts, t.source ≠ [] := by
  induction ts generalizing cs with
  | nil => exact fun _ member => nomatch member
  | cons t ts ih =>
    rcases tokens_eq_ok read with ⟨_, ⟨⟩⟩ | ⟨_, rest, _, ⟨⟩, -, nonempty, -, readRest⟩
    exact List.forall_mem_cons.mpr ⟨nonempty, ih readRest⟩

end MailMarkup.Xml
