import MailMarkup.Proofs.Runs
import MailMarkup.Proofs.TokenSource

/-!
# Readers that delimit themselves

What a reader takes off the front of a text it takes off every text that goes on in another way. A
tag, a comment, a section and an instruction end by themselves; a name ends before the next
character, which the reader after it sees first. No tag starts inside of a tag, and the others end in
marks of their own.
-/
namespace MailMarkup.Xml

variable {α β : Type}

abbrev Reader (α : Type) := List Char → Except Fault (α × List Char)

/-- No tag starts in what the reader takes, and it takes the same off every text that goes on with
the same character. -/
def LooksAhead (read : Reader α) : Prop :=
  ∀ cs a rest, read cs = .ok (a, rest) → ∃ taken, cs = taken ++ rest ∧ '<' ∉ taken ∧
    ∀ other, other.head? = rest.head? → read (taken ++ other) = .ok (a, other)

/-- The reader takes something with the property, and takes the same off every text that goes on
after it. -/
def Delimits (P : List Char → Prop) (read : Reader α) : Prop :=
  ∀ cs a rest, read cs = .ok (a, rest) → ∃ taken, cs = taken ++ rest ∧ taken ≠ [] ∧ P taken ∧
    ∀ other, read (taken ++ other) = .ok (a, other)

/-- The reader takes nothing, and does not look at the text. -/
def Settles (read : Reader α) : Prop :=
  ∀ cs a rest, read cs = .ok (a, rest) → rest = cs ∧ ∀ other, read other = .ok (a, other)

/-- The property is kept if something without a tag is put in front. -/
def Absorbs (P : List Char → Prop) : Prop := ∀ xs ys, '<' ∉ xs → P ys → P (xs ++ ys)

/-- No tag starts in the text. -/
def Tagless (cs : List Char) : Prop := '<' ∉ cs

/-- The text ends as a comment, an instruction or a section does. -/
def EndsInMark (cs : List Char) : Prop := ∃ c ∈ ['-', '?', ']'], [c, '>'] <:+ cs

theorem Tagless.absorbs : Absorbs Tagless := fun _ _ first second =>
  fun member => (List.mem_append.mp member).elim first second

theorem EndsInMark.behind {cs : List Char} (h : EndsInMark cs) (before : List Char) :
    EndsInMark (before ++ cs) := by
  obtain ⟨c, mark, ends⟩ := h
  exact ⟨c, mark, ends.trans (List.suffix_append before cs)⟩

theorem EndsInMark.absorbs : Absorbs EndsInMark := fun before _ _ h => h.behind before

section Combinators

variable {P : List Char → Prop} {first read : Reader α}
variable {next : α × List Char → Except Fault (β × List Char)}

private theorem head?_append_congr {xs : List Char} (nonempty : xs ≠ []) (rest other : List Char) :
    (xs ++ other).head? = (xs ++ rest).head? := by
  rw [List.head?_append_of_ne_nil xs nonempty, List.head?_append_of_ne_nil xs nonempty]

/-- What comes second decides on its own where to stop, and starts with the character that what
comes first has seen. -/
theorem LooksAhead.bind (absorbs : Absorbs P) (before : LooksAhead first)
    (after : ∀ a, Delimits P fun rest => next (a, rest)) :
    Delimits P fun cs => first cs >>= next := by
  intro cs b rest result
  obtain ⟨⟨a, middle⟩, readFirst, readNext⟩ := FirstFailure.bind_eq_ok_iff.mp result
  obtain ⟨taken, rfl, tagless, again⟩ := before cs a middle readFirst
  obtain ⟨more, rfl, nonempty, holds, andAgain⟩ := after a middle b rest readNext
  refine ⟨taken ++ more, (List.append_assoc _ _ _).symm,
    List.append_ne_nil_of_right_ne_nil taken nonempty, absorbs taken more tagless holds,
    fun other => ?_⟩
  rw [List.append_assoc]
  exact FirstFailure.bind_eq_ok_iff.mpr
    ⟨(a, more ++ other), again _ (head?_append_congr nonempty rest other), andAgain other⟩

theorem Delimits.looksAhead (h : Delimits Tagless read) : LooksAhead read := by
  intro cs a rest result
  obtain ⟨taken, whole, -, tagless, again⟩ := h cs a rest result
  exact ⟨taken, whole, tagless, fun other _ => again other⟩

theorem Delimits.bind (before : Delimits Tagless first)
    (after : ∀ a, Delimits Tagless fun rest => next (a, rest)) :
    Delimits Tagless fun cs => first cs >>= next :=
  before.looksAhead.bind Tagless.absorbs after

/-- What comes second does not read on. -/
theorem Delimits.settled (before : Delimits P first)
    (after : ∀ a, Settles fun rest => next (a, rest)) :
    Delimits P fun cs => first cs >>= next := by
  intro cs b rest result
  obtain ⟨⟨a, middle⟩, readFirst, readNext⟩ := FirstFailure.bind_eq_ok_iff.mp result
  obtain ⟨taken, whole, nonempty, holds, again⟩ := before cs a middle readFirst
  obtain ⟨rfl, andAgain⟩ := after a middle b rest readNext
  exact ⟨taken, whole, nonempty, holds, fun other =>
    FirstFailure.bind_eq_ok_iff.mpr ⟨(a, other), again other, andAgain other⟩⟩

theorem Settles.ok (a : α) : Settles fun rest => .ok (a, rest) := by
  rintro cs _ _ ⟨⟩
  exact ⟨rfl, fun _ => rfl⟩

theorem Settles.error (fault : Fault) :
    Settles (fun _ => .error fault : Reader α) := nofun

/-- A computation on what was read. -/
theorem Settles.bind {made : Except Fault β} {read : β → Reader α}
    (after : ∀ b, Settles (read b)) : Settles fun rest => made >>= fun b => read b rest := by
  intro cs a rest result
  obtain ⟨b, done, readNext⟩ := FirstFailure.bind_eq_ok_iff.mp result
  obtain ⟨same, again⟩ := after b cs a rest readNext
  exact ⟨same, fun other => FirstFailure.bind_eq_ok_iff.mpr ⟨b, done, again other⟩⟩

theorem Settles.ite {p : Prop} [Decidable p] {second : Reader α} (yes : p → Settles read)
    (no : ¬ p → Settles second) : Settles fun rest => if p then read rest else second rest := by
  by_cases h : p
  · simpa only [if_pos h] using yes h
  · simpa only [if_neg h] using no h

/-- A run of characters is taken up to the character after it. -/
theorem looksAhead_run {p : Char → Bool} (stops : p '<' = false) :
    LooksAhead fun cs => .ok (cs.takeWhile p, cs.dropWhile p) := by
  rintro cs _ _ ⟨⟩
  have run := IsRun.of_while p cs
  refine ⟨cs.takeWhile p, List.takeWhile_append_dropWhile.symm, fun inside => ?_,
    fun other same => ?_⟩
  · rw [run.all _ inside] at stops
    cases stops
  · simp only [(run.goesOn same).takeWhile_eq, (run.goesOn same).dropWhile_eq]

/-- Spaces in front of what is read are taken with it. -/
theorem Delimits.afterSpaces (absorbs : Absorbs P) (h : Delimits P read) :
    Delimits P fun cs => read (dropSpaces cs) := by
  have spaces : LooksAhead fun cs => .ok (cs.takeWhile isSpace, cs.dropWhile isSpace) :=
    looksAhead_run (by decide)
  have both : Delimits P fun cs =>
      (.ok (cs.takeWhile isSpace, cs.dropWhile isSpace) : Except Fault _) >>= fun p => read p.2 :=
    spaces.bind absorbs fun _ => h
  exact both

end Combinators

private theorem readChar_delimits {c : Char} (other : c ≠ '<') : Delimits Tagless (readChar c) := by
  intro cs a rest read
  unfold readChar at read
  split at read
  · cases read
  · next d cs =>
    split at read
    · next same =>
      cases read
      refine ⟨[d], rfl, List.cons_ne_nil d [], ?_, fun others => ?_⟩
      · rw [Tagless, List.mem_singleton, same]
        exact other.symm
      · rw [List.singleton_append, readChar, if_pos same]
    · cases read

private theorem readName_looksAhead : LooksAhead readName := by
  intro cs name rest read
  have run := IsRun.of_while isNamePart cs
  unfold readName at read
  split at read
  · next found =>
    cases read
    refine ⟨cs.takeWhile isNamePart, List.takeWhile_append_dropWhile.symm, fun inside => ?_,
      fun other same => ?_⟩
    · exact absurd (run.all _ inside) (by decide)
    · have again := run.goesOn same
      rw [readName, again.takeWhile_eq, again.dropWhile_eq, found]
  · cases read

/-- What stands between quotes is taken first and looked at afterwards. -/
theorem readQuoted_eq (quote : Char) : readQuoted quote = fun cs =>
    (.ok (cs.takeWhile fun c => c != quote && c != '<',
      cs.dropWhile fun c => c != quote && c != '<') : Except Fault _) >>= fun raw =>
    readChar quote raw.2 >>= fun closed =>
    if raw.1.all isAllowed then chunks raw.1 >>= fun parts => .ok (valueOf parts, closed.2)
    else .error .forbiddenCharacter := rfl

private theorem readQuoted_delimits {quote : Char} (other : quote ≠ '<') :
    Delimits Tagless (readQuoted quote) := by
  rw [readQuoted_eq]
  refine (looksAhead_run (by simp)).bind Tagless.absorbs fun raw => ?_
  dsimp +instances only
  refine (readChar_delimits other).settled fun _ => ?_
  exact .ite (fun _ => .bind fun _ => .ok _) fun _ => .error _

private theorem readValue_delimits : Delimits Tagless readValue := by
  intro cs value rest read
  have quoted {quote : Char} {cs : List Char} (other : quote ≠ '<')
      (result : readQuoted quote cs = .ok (value, rest))
      (opens : ∀ cs, readValue (quote :: cs) = readQuoted quote cs) :
      ∃ taken, quote :: cs = taken ++ rest ∧ taken ≠ [] ∧ Tagless taken ∧
        ∀ other, readValue (taken ++ other) = .ok (value, other) := by
    obtain ⟨taken, rfl, -, tagless, again⟩ := readQuoted_delimits other _ _ _ result
    refine ⟨quote :: taken, rfl, List.cons_ne_nil _ _, ?_, fun more => ?_⟩
    · exact List.not_mem_cons_of_ne_of_not_mem other.symm tagless
    · rw [List.cons_append, opens, again]
  unfold readValue at read
  split at read
  · exact quoted (by decide) read fun _ => rfl
  · exact quoted (by decide) read fun _ => rfl
  · cases read
  · cases read

private theorem readAttribute_delimits : Delimits Tagless readAttribute := by
  refine readName_looksAhead.bind Tagless.absorbs fun name => ?_
  refine ((readChar_delimits (by decide)).afterSpaces Tagless.absorbs).bind fun _ => ?_
  exact (readValue_delimits.afterSpaces Tagless.absorbs).settled fun _ => .ok _

private theorem readAttributes_cons {cs rest others : List Char} {c : Char} {first : Attribute}
    (begins : dropSpaces cs = c :: rest) (isOpen : c ≠ '>' ∧ c ≠ '/')
    (apart : cs.head?.any isSpace = true) (read : readAttribute (c :: rest) = .ok (first, others))
    (shorter : others.length < cs.length) :
    readAttributes cs = (readAttributes others).map fun p => ((first :: p.1.1, p.1.2), p.2) := by
  rw [readAttributes, begins]
  split
  · next same => cases same
  · next same =>
    cases same
    exact absurd rfl isOpen.1
  · next same =>
    cases same
    exact absurd rfl isOpen.2
  · next same =>
    cases same
    rw [if_pos apart, read]
    exact if_pos shorter

/-- Attributes are read in the same way behind all spaces, as long as there are some or none. -/
theorem exists_taken_behind_spaces {cs inner rest : List Char} {a : List Attribute × Bool}
    (begins : dropSpaces cs = inner ++ rest) (nonempty : inner ≠ []) (tagless : Tagless inner)
    (again : ∀ text other, dropSpaces text = inner ++ other → text.head? = cs.head? →
      readAttributes text = .ok (a, other)) :
    ∃ taken, cs = taken ++ rest ∧ taken ≠ [] ∧ Tagless taken ∧
      ∀ other, readAttributes (taken ++ other) = .ok (a, other) := by
  have run : IsRun isSpace (cs.takeWhile isSpace) (inner ++ rest) :=
    begins ▸ .of_while isSpace cs
  have spaces : Tagless (cs.takeWhile isSpace) := fun inside =>
    absurd (run.all _ inside) (by decide)
  have whole : cs = cs.takeWhile isSpace ++ inner ++ rest := by
    rw [List.append_assoc, ← begins]
    exact List.takeWhile_append_dropWhile.symm
  have filled : cs.takeWhile isSpace ++ inner ≠ [] :=
    List.append_ne_nil_of_right_ne_nil _ nonempty
  refine ⟨_, whole, filled, Tagless.absorbs _ _ spaces tagless, fun other => again _ _ ?_ ?_⟩
  · rw [List.append_assoc]
    exact (run.goesOn (head?_append_congr nonempty rest other)).dropWhile_eq
  · have same := head?_append_congr filled rest other
    rwa [← whole] at same

private theorem readAttributes_delimits : Delimits Tagless readAttributes := by
  intro cs a rest read
  fun_induction readAttributes cs generalizing a rest with
  | case2 cs after here =>
    cases read
    rw [← List.singleton_append] at here
    refine exists_taken_behind_spaces here (by simp) (by simp [Tagless]) ?_
    intro text other begins _
    rw [readAttributes, begins]
    rfl
  | case3 cs after here =>
    obtain ⟨⟨⟨⟩, left⟩, closed, same⟩ := FirstFailure.map_eq_ok_iff.mp read
    cases same
    obtain ⟨mark, rfl, -, tagless, again⟩ := readChar_delimits (by decide) _ _ _ closed
    rw [← List.cons_append] at here
    refine exists_taken_behind_spaces here (by simp) (by simpa [Tagless] using tagless) ?_
    intro text other begins _
    rw [List.cons_append] at begins
    rw [readAttributes, begins]
    simp [again other, Except.map]
  | case5 cs c after notClosing notEmpty here apart first others found shorter ih =>
    obtain ⟨⟨more, left⟩, readRest, same⟩ := FirstFailure.map_eq_ok_iff.mp read
    cases same
    obtain ⟨taken, split, nonempty, tagless, again⟩ := readAttribute_delimits _ _ _ found
    obtain ⟨remaining, rfl, -, alsoTagless, andAgain⟩ := ih _ _ readRest
    rw [split, ← List.append_assoc] at here
    refine exists_taken_behind_spaces here (List.append_ne_nil_of_left_ne_nil nonempty _)
      (Tagless.absorbs _ _ tagless alsoTagless) ?_
    intro text other begins sameHead
    obtain ⟨c', inner, rfl⟩ := List.exists_cons_of_ne_nil nonempty
    rw [List.cons_append, List.cons.injEq] at split
    obtain ⟨rfl, rfl⟩ := split
    have length := (dropSpaces_suffix text).length_le
    rw [begins] at length
    have shorter : (remaining ++ other).length < text.length := by
      simp only [List.length_append, List.length_cons] at length ⊢
      omega
    rw [List.append_assoc, List.cons_append] at begins
    rw [readAttributes_cons begins ⟨notClosing, notEmpty⟩ (sameHead ▸ apart) (again _) shorter,
      andAgain other]
    rfl
  | case1 => cases read
  | case4 => cases read
  | case6 => cases read
  | case7 => cases read

theorem readTag_delimits : Delimits Tagless readTag := by
  refine readName_looksAhead.bind Tagless.absorbs fun name => ?_
  exact readAttributes_delimits.settled fun _ => .ok _

theorem readClosing_delimits : Delimits Tagless readClosing := by
  refine readName_looksAhead.bind Tagless.absorbs fun name => ?_
  exact ((readChar_delimits (by decide)).afterSpaces Tagless.absorbs).settled fun _ => .ok _

/-- What follows the first occurrence of a mark has no part in finding it. -/
theorem splitAt?_again {mark cs before after : List Char} (nonempty : mark ≠ [])
    (found : splitAt? mark cs = some (before, after)) (other : List Char) :
    splitAt? mark (before ++ mark ++ other) = some (before, other) := by
  induction cs generalizing before with
  | nil => cases found
  | cons c cs ih =>
    have whole := eq_of_splitAt? found
    rw [splitAt?] at found
    split at found
    · cases found
      obtain ⟨d, rest, rfl⟩ := List.exists_cons_of_ne_nil nonempty
      have starts : (d :: rest).isPrefixOf (d :: rest ++ other) = true :=
        List.isPrefixOf_iff_prefix.mpr (List.prefix_append _ _)
      rw [List.cons_append] at starts
      rw [List.nil_append, List.cons_append, splitAt?, if_pos starts, ← List.cons_append,
        List.drop_left]
    · next absent =>
      obtain ⟨⟨first, second⟩, later, same⟩ := Option.map_eq_some_iff.mp found
      cases same
      have stillAbsent : ¬ mark.isPrefixOf (c :: first ++ mark ++ other) = true := by
        intro starts
        rw [List.isPrefixOf_iff_prefix] at starts
        have fits : mark.length ≤ (c :: first ++ mark).length := by
          rw [List.length_append]
          exact Nat.le_add_left _ _
        have inside := List.prefix_of_prefix_length_le starts (List.prefix_append _ _) fits
        rw [whole, List.isPrefixOf_iff_prefix] at absent
        exact absent (inside.trans (List.prefix_append _ _))
      rw [List.cons_append, List.cons_append] at stillAbsent ⊢
      rw [splitAt?, if_neg stillAbsent, ih later]
      rfl

private theorem readUpTo_delimits {c : Char} (mark : c ∈ ['-', '?', ']']) (before : List Char) :
    Delimits EndsInMark (readUpTo (before ++ [c, '>'])) := by
  intro cs body rest read
  unfold readUpTo at read
  split at read
  · cases read
  · next found =>
    split at read
    · next allowed =>
      cases read
      have nonempty : before ++ [c, '>'] ≠ [] := by simp
      refine ⟨body ++ (before ++ [c, '>']), eq_of_splitAt? found, by simp,
        ⟨c, mark, ⟨body ++ before, by simp⟩⟩, fun other => ?_⟩
      rw [readUpTo, splitAt?_again nonempty found]
      exact if_pos allowed
    · cases read

theorem readComment_delimits : Delimits EndsInMark readComment := by
  have upTo : Delimits EndsInMark (readUpTo ['-', '-', '>']) :=
    readUpTo_delimits (c := '-') (by simp) ['-']
  exact upTo.settled fun _ => .ite (fun _ => .error _) fun _ => .ok _

theorem readSection_delimits : Delimits EndsInMark readSection := by
  have upTo : Delimits EndsInMark (readUpTo [']', ']', '>']) :=
    readUpTo_delimits (c := ']') (by simp) [']']
  exact upTo.settled fun _ => .ok _

/-- What an instruction holds behind its first characters. -/
def readInside (cs : List Char) : Except Fault (Lexeme × List Char) := do
  let (_, rest) ← readUpTo ['?', '>'] (dropSpaces (cs.dropWhile isNamePart))
  return (.aside, rest)

private theorem readInside_delimits : Delimits EndsInMark readInside := by
  have upTo : Delimits EndsInMark (readUpTo ['?', '>']) :=
    readUpTo_delimits (c := '?') (by simp) []
  have name : LooksAhead fun cs => .ok (cs.takeWhile isNamePart, cs.dropWhile isNamePart) :=
    looksAhead_run (by decide)
  have inside : Delimits EndsInMark fun cs =>
      (.ok (cs.takeWhile isNamePart, cs.dropWhile isNamePart) : Except Fault _) >>= fun p =>
        readUpTo ['?', '>'] (dropSpaces p.2) :=
    name.bind EndsInMark.absorbs fun _ => upTo.afterSpaces EndsInMark.absorbs
  exact inside.settled fun _ => .ok _

theorem EndsInMark.mem {cs : List Char} (h : EndsInMark cs) : '>' ∈ cs := by
  obtain ⟨c, -, ends⟩ := h
  exact ends.subset (by simp)

private theorem startsName_append_congr {xs : List Char} (nonempty : xs ≠ [])
    (rest other : List Char) : startsName (xs ++ other) = startsName (xs ++ rest) := by
  obtain ⟨c, inner, rfl⟩ := List.exists_cons_of_ne_nil nonempty
  rfl

/-- An instruction that is shorter than the mark of a declaration has its end in that mark. -/
theorem readInstruction_delimits : Delimits EndsInMark readInstruction := by
  intro cs lexeme rest read
  have steps (cs : List Char) : readInstruction cs =
      if ['x', 'm', 'l', ' '].isPrefixOf cs then .error .badDeclaration
      else if !startsName cs then .error .badName else readInside cs := rfl
  rw [steps] at read
  split at read
  · cases read
  · next undeclared =>
    split at read
    · cases read
    · next named =>
      obtain ⟨taken, rfl, nonempty, ends, again⟩ := readInside_delimits _ _ _ read
      refine ⟨taken, rfl, nonempty, ends, fun other => ?_⟩
      have stillUndeclared : ¬ ['x', 'm', 'l', ' '].isPrefixOf (taken ++ other) = true := by
        intro starts
        rw [List.isPrefixOf_iff_prefix] at starts undeclared
        rcases Nat.le_total ['x', 'm', 'l', ' '].length taken.length with fits | short
        · have inside := List.prefix_of_prefix_length_le starts (List.prefix_append _ _) fits
          exact undeclared (inside.trans (List.prefix_append _ _))
        · have inside := List.prefix_of_prefix_length_le (List.prefix_append _ _) starts short
          exact absurd (inside.subset ends.mem) (by decide)
      rw [steps, if_neg stillUndeclared, startsName_append_congr nonempty rest other,
        if_neg named, again]

end MailMarkup.Xml
