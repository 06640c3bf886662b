import MailMarkup.Proofs.BlockExtents
import MailMarkup.Proofs.TokenLocality

/-!
# The wrapper spans its text

A text is put between the tags of a wrapper before it is read. It cannot close the wrapper itself:
no token reaches across the start of the last tag, so this tag is read as what it is, and it closes
the element that the first tag opens. The root is all of the text, and what is in it is the text
that was given.
-/
namespace MailMarkup
open Xml

namespace Xml

def openingTag (run : List Char) : List Char := '<' :: (run ++ ['>'])

/-- Spaces may stand behind the name of a closing tag. -/
def closingTag (run spaces : List Char) : List Char := '<' :: '/' :: (run ++ spaces ++ ['>'])

private theorem endsText_closingTag (run spaces rest : List Char) :
    EndsText (closingTag run spaces ++ rest) := rfl

/-- The characters of a name are such that a tag of this name ends as no mark does. -/
structure IsTagName (run : List Char) (name : Name) : Prop where
  parts : ∀ c ∈ run, isNamePart c = true
  named : nameOf? run = some name
  last : ∀ c ∈ run.getLast?, c ∉ ['-', '?', ']']

namespace IsTagName

variable {run : List Char} {name : Name}

private theorem readName_eq (h : IsTagName run name) {rest : List Char}
    (stops : rest.head?.any isNamePart = false) : readName (run ++ rest) = .ok (name, rest) := by
  have isRun : IsRun isNamePart run rest := ⟨h.parts, stops⟩
  rw [readName, isRun.takeWhile_eq, isRun.dropWhile_eq, h.named]

private theorem exists_start (h : IsTagName run name) :
    ∃ c inner, run = c :: inner ∧ c ≠ '!' ∧ c ≠ '?' ∧ c ≠ '/' := by
  obtain ⟨parts, named, -⟩ := h
  cases run with
  | nil => cases named
  | cons c inner =>
    have part := parts c List.mem_cons_self
    refine ⟨c, inner, rfl, ?_, ?_, ?_⟩ <;>
      · rintro rfl
        exact absurd part (by decide)

private theorem readLexeme_opening (h : IsTagName run name) (rest : List Char) :
    readLexeme (openingTag run ++ rest) = .ok (.opening name [], rest) := by
  obtain ⟨c, inner, rfl, start⟩ := h.exists_start
  have read : readName (c :: inner ++ '>' :: rest) = .ok (name, '>' :: rest) := h.readName_eq rfl
  have attributes : readAttributes ('>' :: rest) = .ok (([], false), rest) := by
    rw [readAttributes]
    rfl
  have same : openingTag (c :: inner) ++ rest = '<' :: c :: (inner ++ '>' :: rest) := by
    simp [openingTag]
  rw [same, readLexeme_tag start, ← List.cons_append]
  exact FirstFailure.bind_eq_ok_iff.mpr
    ⟨_, read, FirstFailure.bind_eq_ok_iff.mpr ⟨_, attributes, rfl⟩⟩

private theorem readLexeme_closing (h : IsTagName run name) {spaces : List Char}
    (blank : ∀ c ∈ spaces, isSpace c = true) (rest : List Char) :
    readLexeme (closingTag run spaces ++ rest) = .ok (.closing name, rest) := by
  have stops : (spaces ++ '>' :: rest).head?.any isNamePart = false := by
    cases spaces with
    | nil => rfl
    | cons c spaces =>
      have space := blank c List.mem_cons_self
      simp only [isSpace, Bool.or_eq_true, beq_iff_eq] at space
      rcases space with ((rfl | rfl) | rfl) | rfl <;> rfl
  have isRun : IsRun isSpace spaces ('>' :: rest) := ⟨blank, rfl⟩
  have ends : readChar '>' (dropSpaces (spaces ++ '>' :: rest)) = .ok ((), rest) := by
    have dropped : dropSpaces (spaces ++ '>' :: rest) = '>' :: rest := isRun.dropWhile_eq
    rw [dropped]
    rfl
  have same : closingTag run spaces ++ rest = '<' :: '/' :: (run ++ (spaces ++ '>' :: rest)) := by
    simp [closingTag]
  have isClosing (cs : List Char) : readLexeme ('<' :: '/' :: cs) = readClosing cs := rfl
  rw [same, isClosing]
  exact FirstFailure.bind_eq_ok_iff.mpr
    ⟨_, h.readName_eq stops, FirstFailure.bind_eq_ok_iff.mpr ⟨_, ends, rfl⟩⟩

private theorem tokens_opening (h : IsTagName run name) (rest : List Char) :
    tokens (openingTag run ++ rest) =
      (tokens rest).map (⟨.opening name [], openingTag run⟩ :: ·) :=
  tokens_of_readLexeme (h.readLexeme_opening rest) (List.cons_ne_nil _ _)

private theorem tokens_closing (h : IsTagName run name) {spaces : List Char}
    (blank : ∀ c ∈ spaces, isSpace c = true) (rest : List Char) :
    tokens (closingTag run spaces ++ rest) =
      (tokens rest).map (⟨.closing name, closingTag run spaces⟩ :: ·) :=
  tokens_of_readLexeme (h.readLexeme_closing blank rest) (List.cons_ne_nil _ _)

/-- A text that ends within a closing tag does not end in a mark: at the end of the tag the last
character but one is that of the name, and before that no such end is there at all. -/
theorem not_endsInMark (h : IsTagName run name) {cs begun rest : List Char}
    (within : '/' :: (run ++ ['>']) = begun ++ rest) : ¬ EndsInMark (cs ++ '<' :: begun) := by
  rintro ⟨c, mark, ends⟩
  have begins : begun <+: '/' :: run ++ ['>'] := ⟨rest, within.symm⟩
  rcases List.prefix_concat_iff.mp begins with rfl | short
  · obtain ⟨d, inner, rfl, -⟩ := h.exists_start
    obtain ⟨before, same⟩ := ends
    have whole : before ++ [c] ++ ['>'] = cs ++ ['<', '/'] ++ (d :: inner) ++ ['>'] := by
      simpa using same
    have last := congrArg List.getLast? (List.append_cancel_right whole)
    rw [List.getLast?_concat, List.getLast?_append_of_ne_nil _ (List.cons_ne_nil _ _)] at last
    exact h.last c last.symm mark
  · have ofTag : '>' ∈ '<' :: begun := by
      have last : (cs ++ '<' :: begun).getLast? = some '>' := by
        obtain ⟨before, same⟩ := ends
        rw [← same]
        simp
      rw [List.getLast?_append_of_ne_nil cs (List.cons_ne_nil _ _)] at last
      exact List.mem_of_getLast? last
    have noEnd : '>' ∉ '<' :: '/' :: run := by
      simp only [List.mem_cons, not_or]
      exact ⟨by decide, by decide, fun inside => absurd (h.parts _ inside) (by decide)⟩
    exact noEnd (((List.prefix_cons_inj '<').mpr short).subset ofTag)

/-- A token that starts in front of a closing tag does not reach into it. -/
theorem eq_nil_of_reaches (h : IsTagName run name) {cs mid rest : List Char} {lexeme : Lexeme}
    (takes : Takes (cs ++ mid) lexeme rest) (nonempty : cs ≠ [])
    (within : closingTag run [] = mid ++ rest) : mid = [] := by
  cases mid with
  | nil => rfl
  | cons d begun =>
    rw [closingTag, List.append_nil, List.cons_append, List.cons.injEq] at within
    obtain ⟨rfl, within⟩ := within
    rcases takes.shape with tagless | ends
    · rw [List.tail_append_of_ne_nil nonempty] at tagless
      exact absurd (List.mem_append_right _ List.mem_cons_self) tagless
    · exact absurd ends (h.not_endsInMark within)

/-- The tokens of a text in front of a closing tag end where the tag starts. -/
theorem exists_cut (h : IsTagName run name) {cs : List Char} {ts : List Token}
    (read : tokens (cs ++ closingTag run []) = .ok ts) :
    ∃ before after, ts = before ++ after ∧ before.flatMap Token.source = cs := by
  induction ts generalizing cs with
  | nil =>
    have sources := tokens_source read
    cases List.append_eq_nil_iff.mp sources.symm |>.2
  | cons t ts ih =>
    cases cs with
    | nil => exact ⟨[], t :: ts, rfl, rfl⟩
    | cons c cs =>
      obtain ⟨rest, whole, nonempty, takes, readRest⟩ := exists_rest_of_tokens read
      rcases List.append_eq_append_iff.mp whole with ⟨mid, source, within⟩ | ⟨mid, split, behind⟩
      · rw [source] at takes
        have none := h.eq_nil_of_reaches takes (List.cons_ne_nil c cs) within
        refine ⟨[t], ts, rfl, ?_⟩
        simp [source, none]
      · rw [behind] at readRest
        obtain ⟨before, after, rfl, sources⟩ := ih readRest
        exact ⟨t :: before, after, rfl, by rw [List.flatMap_cons, sources, split]⟩

/-- A text that has tokens alone has the same in the tags of a name. -/
theorem tokens_enclosed (h : IsTagName run name) {cs : List Char} {inside : List Token}
    (read : tokens cs = .ok inside) : tokens (openingTag run ++ (cs ++ closingTag run [])) =
      .ok (⟨.opening name [], openingTag run⟩ ::
        (inside ++ [⟨.closing name, closingTag run []⟩])) := by
  have last : tokens (closingTag run []) = .ok [⟨.closing name, closingTag run []⟩] := by
    have closing := h.tokens_closing (List.forall_mem_nil _) []
    rwa [List.append_nil, tokens_nil] at closing
  have ends : EndsText (closingTag run []) := rfl
  rw [h.tokens_opening, tokens_append read ends, last]
  rfl

/-- A text that has tokens in the tags of a name has those inside alone. -/
theorem exists_inside_of_tokens (h : IsTagName run name) {cs : List Char} {ts : List Token}
    (read : tokens (openingTag run ++ (cs ++ closingTag run [])) = .ok ts) :
    ∃ inside, tokens cs = .ok inside ∧ ts = ⟨.opening name [], openingTag run⟩ ::
      (inside ++ [⟨.closing name, closingTag run []⟩]) := by
  have whole := read
  rw [h.tokens_opening] at read
  obtain ⟨others, readOthers, rfl⟩ := FirstFailure.map_eq_ok_iff.mp read
  obtain ⟨inside, after, rfl, sources⟩ := h.exists_cut readOthers
  have readInside := (tokens_of_append readOthers sources).1
  exact ⟨inside, readInside, Except.ok.inj (whole.symm.trans (h.tokens_enclosed readInside))⟩

end IsTagName

/-- An opening tag at the front is that of an element, which goes on up to its closing tag. -/
theorem Spells.exists_of_opening {t : Token} {ts : List Token} {items : List Item} {name : Name}
    {attributes : List Attribute} (h : Spells (t :: ts) items)
    (opening : t.lexeme = .opening name attributes) :
    ∃ inside u rest children others, ts = inside ++ u :: rest ∧ u.lexeme = .closing name ∧
      Spells inside children ∧ Spells rest others ∧
      items = .element name attributes children t.source u.source :: others := by
  cases h with
  | piece lexeme => rcases lexeme with lexeme | lexeme <;> cases opening.symm.trans lexeme
  | aside lexeme => cases opening.symm.trans lexeme
  | empty lexeme => cases opening.symm.trans lexeme
  | element lexeme closing inside rest =>
    cases opening.symm.trans lexeme
    exact ⟨_, _, _, _, _, rfl, closing, inside, rest, rfl⟩

/-- Where there are no elements there are no tags. -/
theorem Spells.not_isTag {ts : List Token} {items : List Item} (h : Spells ts items)
    (none : items.filter Item.isElement = []) : ∀ t ∈ ts, t.isTag = false := by
  induction h with
  | nil => exact nofun
  | piece lexeme _ ih =>
    refine List.forall_mem_cons.mpr ⟨?_, ih none⟩
    rcases lexeme with lexeme | lexeme <;> simp [Token.isTag, lexeme]
  | aside lexeme _ ih =>
    exact List.forall_mem_cons.mpr ⟨by simp [Token.isTag, lexeme], ih none⟩
  | empty => cases none
  | element => cases none

/-- Tags around tokens that are read as one element are the tags of that element. -/
theorem exists_children_of_treeOf {inside : List Token} {name : Name} {first last : List Char}
    {root : Item}
    (built : treeOf (⟨.opening name [], first⟩ :: (inside ++ [⟨.closing name, last⟩])) = .ok root) :
    ∃ children, Spells inside children ∧ root = .element name [] children first last := by
  obtain ⟨items, spells, single, -⟩ := spells_of_treeOf built
  obtain ⟨within, u, rest, children, others, split, closing, spellsWithin, spellsRest, rfl⟩ :=
    spells.exists_of_opening rfl
  rw [List.filter_cons_of_pos rfl, List.cons.injEq] at single
  have tagless := spellsRest.not_isTag single.2
  rcases rest.eq_nil_or_concat' with rfl | ⟨before, x, rfl⟩
  · obtain ⟨rfl, same⟩ := List.append_inj' split rfl
    cases same
    exact ⟨children, spellsWithin, single.1.symm⟩
  · rw [← List.cons_append, ← List.append_assoc] at split
    obtain ⟨-, same⟩ := List.append_inj' split rfl
    cases same
    cases tagless _ List.mem_concat_self

/-- The text can stand inside an element: every element that is opened in it is closed in it. -/
def IsContent (cs : List Char) : Prop := ∃ ts items, tokens cs = .ok ts ∧ Spells ts items

/-- A closing tag behind content is one too many, whatever stands behind it. -/
theorem IsTagName.not_spells_closed {run : List Char} {name : Name} (h : IsTagName run name)
    {content spaces rest : List Char} {ts : List Token} {items : List Item}
    (isContent : IsContent content) (blank : ∀ c ∈ spaces, isSpace c = true)
    (read : tokens (content ++ closingTag run spaces ++ rest) = .ok ts) : ¬ Spells ts items := by
  intro spells
  obtain ⟨balanced, inContent, readContent, spellsContent⟩ := isContent
  rw [List.append_assoc, tokens_append readContent (endsText_closingTag _ _ _),
    h.tokens_closing blank] at read
  obtain ⟨others, readOthers, rfl⟩ := FirstFailure.map_eq_ok_iff.mp read
  obtain ⟨more, -, rfl⟩ := FirstFailure.map_eq_ok_iff.mp readOthers
  obtain ⟨xs, extents, -⟩ := exists_extents spellsContent
  obtain ⟨ys, others, -⟩ := exists_extents spells
  let close : Token := ⟨.closing name, closingTag run spaces⟩
  have same : balanced ++ close :: (more ++ [close]) =
      balanced ++ close :: more ++ close :: [] := by simp [close]
  have ends := (extents.unique_of_closing others rfl rfl same).1
  cases List.self_eq_append_right.mp ends

end Xml

namespace Document

def wrapperName : Name := ⟨[], wrapper⟩

theorem isTagName_wrapper : IsTagName wrapper wrapperName where
  parts := List.all_eq_true.mp (by decide)
  named := by decide
  last := by
    rintro _ ⟨⟩
    decide

theorem enclosed_eq (s : String) :
    enclosed s = openingTag wrapper ++ (s.toList ++ closingTag wrapper []) := by
  simp [enclosed, openingTag, closingTag]

/-- The root of a text that can be read is the wrapper, around all that was given. -/
theorem exists_inside_of_read {s : String} {root : Item} (read : Xml.read (enclosed s) = .ok root) :
    ∃ inside children, tokens s.toList = .ok inside ∧ Spells inside children ∧
      tokens (enclosed s) = .ok (⟨.opening wrapperName [], openingTag wrapper⟩ ::
        (inside ++ [⟨.closing wrapperName, closingTag wrapper []⟩])) ∧
      root = .element wrapperName [] children (openingTag wrapper) (closingTag wrapper []) := by
  obtain ⟨ts, tokenized, built, -⟩ := read_eq_ok_iff.mp read
  have between := tokenized
  rw [enclosed_eq] at between
  obtain ⟨inside, readInside, rfl⟩ := isTagName_wrapper.exists_inside_of_tokens between
  obtain ⟨children, spells, rfl⟩ := exists_children_of_treeOf built
  exact ⟨inside, children, readInside, spells, tokenized, rfl⟩

/-- The root of a text that is well formed in the wrapper goes on up to the last tag, which is the
wrapper's own: its source is all of the enclosed text, and the source of its children is the text
that was given. A text that closes the wrapper behind some content is malformed. -/
theorem wrapper_spans_enclosed (s : String) :
    (∀ root, Xml.read (enclosed s) = .ok root → root.source = enclosed s ∧
      ∃ inside children,
        root = .element wrapperName [] children (openingTag wrapper) (closingTag wrapper []) ∧
        tokens (enclosed s) = .ok (⟨.opening wrapperName [], openingTag wrapper⟩ ::
          (inside ++ [⟨.closing wrapperName, closingTag wrapper []⟩])) ∧
        tokens s.toList = .ok inside ∧ Spells inside children ∧
        Item.sources children = s.toList) ∧
    ∀ content spaces rest, s.toList = content ++ closingTag wrapper spaces ++ rest →
      IsContent content → (∀ c ∈ spaces, isSpace c = true) →
      ∃ fault, ofMarkup s = .error (.malformedMarkup fault) := by
  constructor
  · intro root read
    obtain ⟨inside, children, readInside, spells, tokenized, rfl⟩ := exists_inside_of_read read
    have sources : Item.sources children = s.toList := by
      rw [spells.sources_eq, tokens_source readInside]
    refine ⟨?_, inside, children, rfl, tokenized, readInside, spells, sources⟩
    rw [Item.source, sources, enclosed_eq, List.append_assoc]
  · intro content spaces rest split isContent blank
    cases read : Xml.read (enclosed s) with
    | error fault => exact ⟨fault, by rw [ofMarkup, read]⟩
    | ok root =>
      obtain ⟨inside, children, readInside, spells, -⟩ := exists_inside_of_read read
      rw [split] at readInside
      exact absurd spells (isTagName_wrapper.not_spells_closed isContent blank readInside)

/-- In a comment a closing tag does not close the wrapper. Where it closes it, a comment cannot hide
the tag that is left over. -/
theorem wrapper_spans_enclosed_comment :
    let hidden := "<mj-body/><!--</__mjml_root__>-->"
    let closed := "<mj-body/></__mjml_root__ ><!--"
    (∃ root, Xml.read (enclosed hidden) = .ok root ∧ root.source = enclosed hidden) ∧
    ∃ fault, ofMarkup closed = .error (.malformedMarkup fault) := by
  intro hidden closed
  constructor
  · have accepted : (Xml.read (enclosed hidden)).toOption.isSome = true := by decide +kernel
    obtain ⟨root, found⟩ := Option.isSome_iff_exists.mp accepted
    have read := FirstFailure.toOption_eq_some_iff.mp found
    exact ⟨root, read, ((wrapper_spans_enclosed hidden).1 root read).1⟩
  · let body : Token := ⟨.empty ⟨[], "mj-body".toList⟩ [], "<mj-body/>".toList⟩
    have isContent : IsContent "<mj-body/>".toList := by
      have readBody : (tokens "<mj-body/>".toList).toOption = some [body] := by decide +kernel
      exact ⟨[body], _, FirstFailure.toOption_eq_some_iff.mp readBody, .empty rfl .nil⟩
    have blank : ∀ c ∈ [' '], isSpace c = true := List.forall_mem_singleton.mpr rfl
    exact (wrapper_spans_enclosed closed).2 _ [' '] "<!--".toList (by decide) isContent blank

end Document

end MailMarkup
