import MailMarkup.Proofs.MarkOccurrences
import MailMarkup.Proofs.WrittenTags

/-!
# Reading attributes back

A reader takes attributes apart who trusts the quotes: a blank, a name up to an equals sign with a
quote behind it, a value up to the next quote, and so on to the end of the text. It finds what was
written, whatever the values are, since none is written with a quote inside. What it finds for a
value stands for that value, and also for each one that differs from it in nothing but quotes that
were given as entities in the first place.
-/
namespace MailMarkup.Markup

/-- The text in front of the first occurrence of a mark, and the text behind it. -/
def cut? (mark cs : List Char) : Option (List Char × List Char) :=
  (lengthThrough? mark cs).map fun n => (cs.take (n - mark.length), cs.drop n)

private theorem cut?_append {mark front : List Char} (nonempty : mark ≠ [])
    (first : ¬ mark <:+: front ++ mark.dropLast) (rest : List Char) :
    cut? mark (front ++ mark ++ rest) = some (front, rest) := by
  have ends : mark <:+ front ++ mark := List.suffix_append front mark
  obtain ⟨n, -, found, here⟩ := exists_lengthThrough? nonempty ends rest
  rw [List.dropLast_append_of_ne_nil nonempty] at here
  obtain rfl := here.mpr first
  rw [cut?, found]
  simp

private theorem length_le_of_cut? {mark cs front rest : List Char}
    (h : cut? mark cs = some (front, rest)) : rest.length ≤ cs.length := by
  obtain ⟨n, -, same⟩ := Option.map_eq_some_iff.mp h
  cases same
  rw [List.length_drop]
  exact Nat.sub_le _ _

/-- The attribute at the start of a text, with the text behind it. -/
def readAttribute? : List Char → Option ((String × String) × List Char)
  | ' ' :: cs =>
    (cut? ['=', '"'] cs).bind fun name =>
      (cut? ['"'] name.2).map fun value =>
        ((String.ofList name.1, String.ofList value.1), value.2)
  | _ => none

private theorem length_lt_of_readAttribute? {cs rest : List Char} {a : String × String}
    (h : readAttribute? cs = some (a, rest)) : rest.length < cs.length := by
  unfold readAttribute? at h
  split at h
  · obtain ⟨name, cutName, h⟩ := Option.bind_eq_some_iff.mp h
    obtain ⟨value, cutValue, same⟩ := Option.map_eq_some_iff.mp h
    cases same
    rw [List.length_cons, Nat.lt_succ_iff]
    exact (length_le_of_cut? cutValue).trans (length_le_of_cut? cutName)
  · cases h

/-- The attributes that make up a text, from left to right. -/
def readAttributes? (cs : List Char) : Option (List (String × String)) :=
  if cs = [] then some []
  else
    match _read : readAttribute? cs with
    | none => none
    | some (a, rest) => (readAttributes? rest).map (a :: ·)
termination_by cs.length
decreasing_by exact length_lt_of_readAttribute? _read

private theorem readAttributes?_of_readAttribute? {cs rest : List Char} {a : String × String}
    (h : readAttribute? cs = some (a, rest)) :
    readAttributes? cs = (readAttributes? rest).map (a :: ·) := by
  have filled : cs ≠ [] := by
    rintro rfl
    cases h
  rw [readAttributes?, if_neg filled]
  split
  · next none =>
    rw [none] at h
    cases h
  · next some =>
    rw [some] at h
    cases h
    rfl

/-- A name that shows its own end. -/
def IsBare (name : String) : Prop :=
  ' ' ∉ name.toList ∧ '=' ∉ name.toList ∧ '"' ∉ name.toList

instance (name : String) : Decidable (IsBare name) := inferInstanceAs (Decidable (_ ∧ _ ∧ _))

def quoteEntity : List Char := ['&', 'q', 'u', 'o', 't', ';']

/-- A text with entities in the place of its quotes. -/
def withEntities (s : String) : String :=
  String.ofList (quoteEntity.intercalate (s.toList.splitOn '"'))

private theorem escapeQuotes_eq_intercalate (cs : List Char) :
    escapeQuotes cs = quoteEntity.intercalate (cs.splitOn '"') := by
  induction cs with
  | nil => rfl
  | cons c cs ih =>
    have nonempty := List.splitOn_ne_nil '"' cs
    obtain ⟨first, others, pieces⟩ := List.exists_cons_of_ne_nil nonempty
    rw [escapeQuotes, List.flatMap_cons, ← escapeQuotes, ih, List.splitOn_cons_eq_if_modifyHead,
      pieces]
    by_cases quote : c = '"'
    · simp [quote, quoteEntity, List.intercalate_cons_cons]
    · simp [quote, List.intercalate_cons_cons_left]

private theorem escaped_eq_withEntities (s : String) : escaped s = withEntities s := by
  rw [escaped, withEntities, escapeQuotes_eq_intercalate]

/-- The attributes that are not passed over, each with what stands between its quotes. -/
def written (attributes : Attributes) : List (String × String) :=
  attributes.filterMap fun a => (a.2.filter (· ≠ "")).map fun value => (a.1, withEntities value)

def quotedText (a : String × String) : String := " " ++ a.1 ++ "=\"" ++ a.2 ++ "\""

private theorem attributesText_eq_join (attributes : Attributes) :
    attributesText attributes = String.join ((written attributes).map quotedText) := by
  induction attributes with
  | nil => rfl
  | cons a rest ih =>
    obtain ⟨name, _ | value⟩ := a
    · exact ih
    · rw [attributesText]
      by_cases empty : value = ""
      · rw [if_pos empty, ih]
        simp [written, empty]
      · rw [if_neg empty, ih]
        simp [written, empty, attributeText, quotedText, escaped_eq_withEntities]

private theorem readAttribute?_quotedText {a : String × String} (named : IsBare a.1)
    (closed : '"' ∉ a.2.toList) (rest : List Char) :
    readAttribute? ((quotedText a).toList ++ rest) = some (a, rest) := by
  have shape : (quotedText a).toList ++ rest =
      ' ' :: (a.1.toList ++ ['=', '"'] ++ (a.2.toList ++ ['"'] ++ rest)) := by
    simp [quotedText]
  have name : ¬ ['=', '"'] <:+: a.1.toList ++ ['='] := fun occurs => by
    have quote := occurs.subset (List.mem_cons_of_mem _ List.mem_cons_self)
    simp [named.2.2] at quote
  have value : ¬ ['"'] <:+: a.2.toList ++ [] := fun occurs => by
    have quote := occurs.subset List.mem_cons_self
    simp [closed] at quote
  rw [shape, readAttribute?, cut?_append (by simp) name, Option.bind_some,
    cut?_append (by simp) value]
  simp

/-- What is written with names that show their end and without quotes in the values is read. -/
theorem readAttributes?_join {pairs : List (String × String)} (named : ∀ a ∈ pairs, IsBare a.1)
    (closed : ∀ a ∈ pairs, '"' ∉ a.2.toList) :
    readAttributes? (String.join (pairs.map quotedText)).toList = some pairs := by
  induction pairs with
  | nil =>
    rw [readAttributes?]
    rfl
  | cons a rest ih =>
    obtain ⟨name, names⟩ := List.forall_mem_cons.mp named
    obtain ⟨value, values⟩ := List.forall_mem_cons.mp closed
    have shape : (String.join ((a :: rest).map quotedText)).toList =
        (quotedText a).toList ++ (String.join (rest.map quotedText)).toList := by
      simp
    rw [shape, readAttributes?_of_readAttribute? (readAttribute?_quotedText name value _),
      ih names values, Option.map_some]

private theorem quote_not_mem_withEntities (s : String) : '"' ∉ (withEntities s).toList := by
  rw [← escaped_eq_withEntities, escaped, String.toList_ofList]
  exact fun member => ne_quote_of_mem_escapeQuotes member rfl

private theorem exists_of_mem_written {attributes : Attributes} {a : String × String}
    (member : a ∈ written attributes) :
    ∃ value, (a.1, some value) ∈ attributes ∧ a.2 = withEntities value := by
  obtain ⟨⟨name, value?⟩, listed, made⟩ := List.mem_filterMap.mp member
  obtain ⟨value, kept, rfl⟩ := Option.map_eq_some_iff.mp made
  obtain ⟨rfl, -⟩ := Option.filter_eq_some_iff.mp kept
  exact ⟨value, listed, rfl⟩

private theorem readAttributes?_written {attributes : Attributes}
    (named : ∀ a ∈ attributes, IsBare a.1) :
    readAttributes? (String.join ((written attributes).map quotedText)).toList =
      some (written attributes) := by
  refine readAttributes?_join (fun a member => ?_) fun a member => ?_
  · obtain ⟨value, listed, -⟩ := exists_of_mem_written member
    exact named _ listed
  · obtain ⟨value, -, between⟩ := exists_of_mem_written member
    rw [between]
    exact quote_not_mem_withEntities value

/-- A reader of attributes finds those that have a value, in their order, and in the values the
entities of their quotes, with nothing else changed. -/
theorem readAttributes?_attributesText (attributes : Attributes)
    (named : ∀ a ∈ attributes, IsBare a.1) :
    readAttributes? (attributesText attributes).toList = some (written attributes) := by
  rw [attributesText_eq_join, readAttributes?_written named]

/-- A value may hold quotes, and also what stands in front of values. -/
theorem readAttributes?_attributesText_onload :
    let attributes : Attributes :=
      [("href", some "a\" onload=\"b"), ("class", none), ("style", some ""), ("rel", some "&quot;=\"")]
    (∀ a ∈ attributes, IsBare a.1) ∧ readAttributes? (attributesText attributes).toList =
      some [("href", "a&quot; onload=&quot;b"), ("rel", "&quot;=&quot;")] := by
  intro attributes
  have named : ∀ a ∈ attributes, IsBare a.1 := by decide
  have same : written attributes =
      [("href", "a&quot; onload=&quot;b"), ("rel", "&quot;=&quot;")] := by decide +kernel
  exact ⟨named, same ▸ readAttributes?_attributesText attributes named⟩

/-- The text that stands between quotes, with every entity of a quote taken for the quote. -/
def restoreQuotes : List Char → List Char
  | '&' :: 'q' :: 'u' :: 'o' :: 't' :: ';' :: cs => '"' :: restoreQuotes cs
  | c :: cs => c :: restoreQuotes cs
  | [] => []

def restored (s : String) : String := String.ofList (restoreQuotes s.toList)

private theorem restoreQuotes_entity (cs : List Char) :
    restoreQuotes (quoteEntity ++ cs) = '"' :: restoreQuotes cs :=
  rfl

private theorem restoreQuotes_cons {c : Char} {cs : List Char} (other : ¬ quoteEntity <+: c :: cs) :
    restoreQuotes (c :: cs) = c :: restoreQuotes cs := by
  rw [restoreQuotes]
  rintro rest rfl rfl
  exact other (List.prefix_append quoteEntity rest)

private theorem escapeQuotes_quote (cs : List Char) :
    escapeQuotes ('"' :: cs) = quoteEntity ++ escapeQuotes cs :=
  rfl

private theorem escapeQuotes_cons {c : Char} (other : c ≠ '"') (cs : List Char) :
    escapeQuotes (c :: cs) = c :: escapeQuotes cs := by
  simp [escapeQuotes, other]

theorem escapeQuotes_restoreQuotes (cs : List Char) :
    escapeQuotes (restoreQuotes cs) = escapeQuotes cs := by
  fun_induction restoreQuotes cs with
  | case1 cs ih =>
    rw [escapeQuotes_quote, ih]
    rfl
  | case2 c cs _ ih =>
    rw [escapeQuotes, List.flatMap_cons, ← escapeQuotes, ih]
    rfl
  | case3 => rfl

/-- What comes of a quote starts with the first character of its entity, which comes once in it. -/
theorem prefix_of_prefix_escapeQuotes {part cs : List Char} (inside : '&' ∉ part)
    (front : part <+: escapeQuotes cs) : part <+: cs := by
  induction part generalizing cs with
  | nil => exact List.nil_prefix
  | cons d part ih =>
    obtain ⟨first, inside⟩ := not_or.mp (mt List.mem_cons.mpr inside)
    cases cs with
    | nil => exact front
    | cons c cs =>
      by_cases quote : c = '"'
      · rw [quote, escapeQuotes_quote] at front
        exact absurd (List.cons_prefix_cons.mp front).1.symm first
      · rw [escapeQuotes_cons quote] at front
        obtain ⟨rfl, below⟩ := List.cons_prefix_cons.mp front
        exact List.cons_prefix_cons.mpr ⟨rfl, ih inside below⟩

theorem restoreQuotes_escapeQuotes (cs : List Char) :
    restoreQuotes (escapeQuotes cs) = restoreQuotes cs := by
  fun_induction restoreQuotes cs with
  | case1 cs ih => exact congrArg ('"' :: ·) ih
  | case2 c cs other ih =>
    by_cases quote : c = '"'
    · rw [quote, escapeQuotes_quote, restoreQuotes_entity, ih]
    · have alone : ¬ quoteEntity <+: c :: escapeQuotes cs := fun front => by
        obtain ⟨first, below⟩ := List.cons_prefix_cons.mp front
        obtain ⟨rest, same⟩ := prefix_of_prefix_escapeQuotes (by decide) below
        exact other rest first.symm same.symm
      rw [escapeQuotes_cons quote, restoreQuotes_cons alone, ih]
  | case3 => rfl

private theorem restoreQuotes_of_no_entity {cs : List Char} (absent : ¬ quoteEntity <:+: cs) :
    restoreQuotes cs = cs := by
  induction cs with
  | nil => rfl
  | cons c cs ih =>
    obtain ⟨alone, below⟩ := not_or.mp (mt List.infix_cons_iff.mpr absent)
    rw [restoreQuotes_cons alone, ih below]

theorem withEntities_restored (s : String) : withEntities (restored s) = withEntities s := by
  rw [← escaped_eq_withEntities, ← escaped_eq_withEntities, escaped, restored,
    String.toList_ofList, escapeQuotes_restoreQuotes, escaped]

theorem restored_withEntities (s : String) : restored (withEntities s) = restored s := by
  rw [← escaped_eq_withEntities, restored, escaped, String.toList_ofList,
    restoreQuotes_escapeQuotes, restored]

private theorem restored_of_no_entity {s : String} (absent : ¬ quoteEntity <:+: s.toList) :
    restored s = s := by
  rw [restored, restoreQuotes_of_no_entity absent, String.ofList_toList]

/-- Values have the same texts between the quotes exactly if they are restored alike. -/
theorem map_withEntities_eq_iff {values others : List String} :
    values.map withEntities = others.map withEntities ↔
      values.map restored = others.map restored := by
  constructor
  · intro same
    have again := congrArg (List.map restored) same
    simpa only [List.map_map, Function.comp_def, restored_withEntities] using again
  · intro same
    have again := congrArg (List.map withEntities) same
    simpa only [List.map_map, Function.comp_def, withEntities_restored] using again

section Values

/-- Attributes with a value for each name. -/
def valued (names values : List String) : Attributes := names.zip (values.map some)

variable {names values others : List String}

private theorem written_valued (filled : ∀ value ∈ values, value ≠ "") :
    written (valued names values) = names.zip (values.map withEntities) := by
  induction names generalizing values with
  | nil => rfl
  | cons name names ih =>
    cases values with
    | nil => rfl
    | cons value values =>
      obtain ⟨here, below⟩ := List.forall_mem_cons.mp filled
      have first : (some value).filter (· ≠ "") = some value := by simp [here]
      have rest := ih below
      rw [valued, List.map_cons, List.zip_cons_cons, written, List.filterMap_cons, first]
      exact congrArg ((name, withEntities value) :: ·) rest

private theorem isBare_of_mem_valued (named : ∀ name ∈ names, IsBare name) :
    ∀ a ∈ valued names values, IsBare a.1 :=
  fun _ member => named _ (List.of_mem_zip member).1

/-- A reader finds the values with entities in the place of their quotes. -/
theorem readAttributes?_valued (named : ∀ name ∈ names, IsBare name)
    (filled : ∀ value ∈ values, value ≠ "") :
    readAttributes? (attributesText (valued names values)).toList =
      some (names.zip (values.map withEntities)) := by
  rw [attributesText_eq_join, readAttributes?_written (isBare_of_mem_valued named),
    written_valued filled]

theorem attributesText_valued_eq_iff (named : ∀ name ∈ names, IsBare name)
    (filled : ∀ value ∈ values, value ≠ "") (filled' : ∀ value ∈ others, value ≠ "")
    (length : values.length = names.length) (length' : others.length = names.length) :
    attributesText (valued names values) = attributesText (valued names others) ↔
      values.map restored = others.map restored := by
  rw [← map_withEntities_eq_iff]
  constructor
  · intro same
    have read := readAttributes?_valued named filled
    rw [same, readAttributes?_valued named filled', Option.some_inj] at read
    have ends := congrArg (List.map Prod.snd) read
    rw [List.map_snd_zip (by simp [length']), List.map_snd_zip (by simp [length])] at ends
    exact ends.symm
  · intro same
    rw [attributesText_eq_join, attributesText_eq_join, written_valued filled,
      written_valued filled', same]

private theorem map_restored_of_no_entity
    (absent : ∀ value ∈ values, ¬ quoteEntity <:+: value.toList) : values.map restored = values :=
  (List.map_congr_left fun value member => restored_of_no_entity (absent value member)).trans
    (List.map_id values)

/-- Two lists of values for the same names are written alike exactly if they are the same once
every entity of a quote in them is taken for the quote, and a reader who does so finds the values
in that form. So values are told apart and recovered if they hold no such entity themselves. -/
theorem attributesText_valued (names values others : List String)
    (named : ∀ name ∈ names, IsBare name) (filled : ∀ value ∈ values ++ others, value ≠ "")
    (length : values.length = names.length) (length' : others.length = names.length) :
    (attributesText (valued names values) = attributesText (valued names others) ↔
      values.map restored = others.map restored) ∧
    (readAttributes? (attributesText (valued names values)).toList).map
        (List.map fun a => (a.1, restored a.2)) = some (names.zip (values.map restored)) ∧
    ((∀ value ∈ values ++ others, ¬ quoteEntity <:+: value.toList) →
      values.map restored = values ∧
        (attributesText (valued names values) = attributesText (valued names others) →
          values = others)) := by
  obtain ⟨filled, filled'⟩ := List.forall_mem_append.mp filled
  have alike := attributesText_valued_eq_iff named filled filled' length length'
  refine ⟨alike, ?_, fun absent => ?_⟩
  · have restores : (values.map withEntities).map restored = values.map restored := by
      simp only [List.map_map, Function.comp_def, restored_withEntities]
    have pairs : (names.zip (values.map withEntities)).map (fun a => (a.1, restored a.2)) =
        names.zip ((values.map withEntities).map restored) := List.zip_map_right.symm
    rw [readAttributes?_valued named filled, Option.map_some, pairs, restores]
  · obtain ⟨absent, absent'⟩ := List.forall_mem_append.mp absent
    have same := map_restored_of_no_entity absent
    refine ⟨same, fun written => ?_⟩
    rw [← same, alike.mp written, map_restored_of_no_entity absent']

/-- An entity that is not complete stays as it is, in front of a quote too. -/
theorem attributesText_valued_incomplete :
    let names := ["title", "rel"]
    let values := ["say \"hi\"", "a&quo\""]
    (∀ name ∈ names, IsBare name) ∧ (∀ value ∈ values ++ values, value ≠ "") ∧
      values.length = names.length ∧
      (readAttributes? (attributesText (valued names values)).toList).map
        (List.map fun a => (a.1, restored a.2)) = some (names.zip values) := by
  intro names values
  have named : ∀ name ∈ names, IsBare name := by decide
  have filled : ∀ value ∈ values ++ values, value ≠ "" := by decide
  have absent : ∀ value ∈ values ++ values, ¬ quoteEntity <:+: value.toList := by decide +kernel
  obtain ⟨-, read, recovered⟩ := attributesText_valued names values values named filled rfl rfl
  rw [(recovered absent).1] at read
  exact ⟨named, filled, rfl, read⟩

/-- A quote is written like the entity that stands for it. -/
theorem attributesText_valued_entity :
    attributesText (valued ["href"] ["\""]) = attributesText (valued ["href"] ["&quot;"]) ∧
      IsBare "href" ∧ ["\""] ≠ ["&quot;"] := by
  decide +kernel

end Values

end MailMarkup.Markup
