import MailMarkup.Proofs.ConditionalMarks
import MailMarkup.Proofs.DecimalText
import MailMarkup.Proofs.DefaultLayers
import MailMarkup.Proofs.ResolutionExactness
import MailMarkup.Proofs.StyleDeclarations
import MailMarkup.Proofs.TemplateInputs

/-!
# Templates without conditional marks

Texts in which no comment starts or ends are written into attributes and styles in such a way that
no conditional mark comes about: what is put between them and around them splits marks. Numbers are
written without any character of a mark but the dash.
-/
namespace MailMarkup
open Markup Text

/-- No comment starts or ends in the text. -/
def IsUncommented (s : String) : Prop :=
  ¬ "<!--".toList <:+: s.toList ∧ ¬ "-->".toList <:+: s.toList

instance (s : String) : Decidable (IsUncommented s) := inferInstanceAs (Decidable (_ ∧ _))

theorem IsUncommented.isCalm {s : String} (h : IsUncommented s) : IsCalm s.toList := by
  have start : ['<', '!', '-', '-'] <:+: ['<', '!', '-', '-', '['] := by decide
  intro core isCore occurs
  rcases List.mem_pair.mp isCore with rfl | rfl
  · exact h.1 (start.trans occurs)
  · exact h.2 occurs

theorem IsUncommented.isCalm_trimmed {s : String} (h : IsUncommented s) :
    IsCalm (trimmed s).toList := by
  rw [trimmed, String.toList_ofList]
  exact h.isCalm.part (infix_trim s.toList)

namespace Resolution

/-- The texts of a resolution come from the tables it is made from, or from the schema. -/
theorem isCalmValue_raw? {c : Component} {defaults own : Table String}
    (ofDefaults : ∀ name, ∀ text ∈ defaults.get? name, IsUncommented text)
    (ofOwn : ∀ name, ∀ text ∈ own.get? name, IsUncommented text) (name : String) :
    IsCalmValue ((resolve c defaults own).raw? name) := by
  have ofSchema : ∀ d ∈ c.schema.defaults, IsUncommented d.2 := by
    cases c <;> decide +kernel
  intro text isSet
  obtain ⟨setting, looked, rfl⟩ := Option.map_eq_some_iff.mp isSet
  obtain ⟨_, picked, -, found, raw, -⟩ := exists_picked_of_get? looked
  rw [raw]
  refine IsUncommented.isCalm_trimmed ?_
  rw [pick?, Option.or_eq_some_iff, Option.or_eq_some_iff] at found
  rcases found with found | ⟨-, found | ⟨-, found⟩⟩
  · exact ofOwn name picked (nonblank_eq_some_iff.mp found).1
  · exact ofDefaults name picked (nonblank_eq_some_iff.mp found).1
  · obtain ⟨before, after, split, -⟩ := List.lookup_eq_some_iff.mp found
    exact ofSchema (name, picked) (by simp [split])

end Resolution

namespace Styles

def IsCalm (s : Styles) : Prop :=
  ∀ d ∈ s.declarations, HasNoAngle d.1 ∧ Markup.IsCalm d.2.toList

private theorem isCalm_iff_all {s : Styles} :
    s.IsCalm ↔ s.All fun property value => HasNoAngle property ∧ Markup.IsCalm value.toList :=
  Iff.rfl

private theorem isCalm_ofOptions {declarations : List (String × Option String)}
    (calm : ∀ d ∈ declarations, HasNoAngle d.1 ∧ IsCalmValue d.2) :
    (ofOptions declarations).IsCalm := by
  refine isCalm_iff_all.mpr (all_ofOptions fun d member text isSet => ?_)
  obtain ⟨named, valued⟩ := calm d member
  exact ⟨named, valued text isSet⟩

/-- Each declaration is split from the others, and its property from its value. -/
theorem IsCalm.css {s : Styles} (calm : s.IsCalm) : Markup.IsCalm s.css.toList := by
  rw [Styles.css]
  unfold IsCalm at calm
  generalize s.declarations = declarations at calm ⊢
  induction declarations with
  | nil => exact .of_no_angle (by simp)
  | cons d rest ih =>
    obtain ⟨⟨named, valued⟩, below⟩ := List.forall_mem_cons.mp calm
    have shape : (String.join ((d :: rest).map declarationText)).toList =
        d.1.toList ++ ':' :: (d.2.toList ++ ';' ::
          (String.join (rest.map declarationText)).toList) := by
      simp [declarationText]
    rw [shape, IsCalm.append_cons_iff (by decide), IsCalm.append_cons_iff (by decide)]
    exact ⟨.of_no_angle named, valued, ih below⟩

end Styles

private theorem Decimal.hasNoAngle_text (x : Float) : HasNoAngle (text x) := by
  intro c member
  rw [text, String.toList_ofList] at member
  have other : ∀ c ∈ ['i', 'n', 'f', 'N', 'a'], c ≠ '<' ∧ c ≠ '>' := by simp
  rcases mem_written member with (digit | rfl | rfl) | letter
  · constructor <;> rintro rfl <;> cases digit
  · decide
  · decide
  · exact other c letter

theorem Decimal.hasNoAngle_wholeText (x : Float) : HasNoAngle (wholeText x) := by
  intro c member
  refine hasNoAngle_text x c ?_
  rw [wholeText, String.toList_ofList] at member
  rw [text, String.toList_ofList]
  exact (List.takeWhile_prefix _).subset member

theorem Length.hasNoAngle_text_px (x : Float) : HasNoAngle (px x).text := by
  intro c member
  rw [text, String.toList_append] at member
  have suffix : HasNoAngle LengthUnit.px.suffix := by decide
  exact (List.mem_append.mp member).elim (Decimal.hasNoAngle_text x c) (suffix c)

/-- A class with its suffix has no mark, even if the class ends in the start of one. -/
theorem isCalm_suffixed {word : List Char} (calm : IsCalm word) :
    IsCalm (word ++ "-outlook".toList) := by
  have shape : word ++ "-outlook".toList = (word ++ ['-']) ++ 'o' :: "utlook".toList := by simp
  rw [shape, IsCalm.append_cons_iff (by decide)]
  exact ⟨calm.concat_dash, .of_no_angle (by simp)⟩

private theorem isCalm_spaced {first second : String} (calm : IsCalm first.toList)
    (calm' : IsCalm second.toList) : IsCalm (first ++ " " ++ second).toList := by
  have shape : (first ++ " " ++ second).toList = first.toList ++ ' ' :: second.toList := by simp
  rw [shape, IsCalm.append_cons_iff (by decide)]
  exact ⟨calm, calm'⟩

private theorem isCalm_joined {words : List String} (calm : ∀ word ∈ words, IsCalm word.toList) :
    IsCalm (joined " " words).toList := by
  intro core isCore
  rw [infix_joined_iff (ne_nil_of_core isCore) (not_mem_of_core isCore (by decide))]
  rintro ⟨word, member, occurs⟩
  exact calm word member core isCore occurs

private theorem isCalm_getD {text : Option String} (calm : IsCalmValue text) {otherwise : String}
    (calm' : IsCalm otherwise.toList) : IsCalm (text.getD otherwise).toList := by
  cases text with
  | none => exact calm'
  | some text => exact calm text rfl

private theorem isCalm_of_mem_wordsOf {text : Option String} (calm : IsCalmValue text) :
    ∀ word ∈ wordsOf (text.getD ""), IsCalm word.toList := by
  intro word member
  obtain ⟨cs, isWord, rfl⟩ := List.mem_map.mp member
  have whole : IsCalm (text.getD "").toList := isCalm_getD calm (.of_no_angle (by simp))
  rw [String.toList_ofList]
  exact whole.part (infix_of_mem_words isWord)

private theorem isCalm_ofWords {words : List String} (calm : ∀ word ∈ words, IsCalm word.toList) :
    IsCalm (BackgroundPosition.ofWords words).1.toList ∧
      IsCalm (BackgroundPosition.ofWords words).2.toList := by
  have center : IsCalm "center".toList := .of_no_angle (by simp)
  have top : IsCalm "top".toList := .of_no_angle (by simp)
  unfold BackgroundPosition.ofWords
  split
  · next word =>
    have word := calm word List.mem_cons_self
    split
    · exact ⟨center, word⟩
    · exact ⟨word, center⟩
  · next first second =>
    have first := calm first List.mem_cons_self
    have second := calm second (List.mem_cons_of_mem _ List.mem_cons_self)
    split
    · exact ⟨second, first⟩
    · exact ⟨first, second⟩
  · exact ⟨center, top⟩

private theorem isCalm_url {url : String} (calm : IsCalm url.toList) :
    IsCalm ("url('" ++ url ++ "')").toList := by
  have shape : ("url('" ++ url ++ "')").toList =
      "url(".toList ++ '\'' :: (url.toList ++ '\'' :: [')']) := by simp
  rw [shape, IsCalm.append_cons_iff (by decide), IsCalm.append_cons_iff (by decide)]
  exact ⟨.of_no_angle (by simp), calm, by decide⟩

section Resolution

variable {r : Resolution} (calm : ∀ name, IsCalmValue (r.raw? name))
include calm

theorem isCalmValue_outlookClass : IsCalmValue (Outlook.outlookClass r) := by
  have words := isCalm_of_mem_wordsOf (calm "css-class")
  unfold Outlook.outlookClass Outlook.suffixed
  split
  · exact isCalmValue_none
  · rw [isCalmValue_some]
    refine isCalm_joined (List.forall_mem_map.mpr fun word member => ?_)
    have shape : (word ++ "-" ++ "outlook").toList = word.toList ++ "-outlook".toList := by simp
    rw [shape]
    exact isCalm_suffixed (words word member)

theorem isCalmValue_cellColor : IsCalmValue (Template.cellColor r) := by
  unfold Template.cellColor
  split
  · exact isCalmValue_none
  · exact isCalmValue_none
  · exact calm _

private theorem isCalm_backgroundPosition : IsCalm (BackgroundPosition.ofAttributes r).toList := by
  have words := isCalm_of_mem_wordsOf (calm "background-position")
  have axes := isCalm_ofWords words
  exact isCalm_spaced (isCalm_getD (calm _) axes.1) (isCalm_getD (calm _) axes.2)

private theorem isCalm_backgroundStyles : (backgroundStyles r).IsCalm := by
  unfold backgroundStyles
  split
  · next url isSet =>
    have image := isCalm_url (calm _ url isSet)
    refine Styles.isCalm_ofOptions ?_
    simpa [HasNoAngle, IsCalm.of_no_angle, calm, isCalm_backgroundPosition calm] using image
  · refine Styles.isCalm_ofOptions ?_
    simp [HasNoAngle, calm]

end Resolution

namespace Buckets

private theorem isCalm_css {b : Buckets} {name : String}
    (calm : ∀ styles, b.get? name = some styles → styles.IsCalm) :
    IsCalm (b.css name).toList := by
  rw [css]
  cases found : b.get? name with
  | none => exact .of_no_angle (by simp)
  | some styles => exact (calm styles found).css

variable {r : Resolution} (calm : ∀ name, IsCalmValue (r.raw? name))
include calm

private theorem isCalm_bodyCell : (bodyCell r).IsCalm := by
  refine Styles.isCalm_ofOptions ?_
  simp [HasNoAngle, IsCalm.of_no_angle, calm]

private theorem isCalm_badgeTable : (badgeTable r).IsCalm := by
  refine Styles.isCalm_ofOptions ?_
  simp [HasNoAngle, IsCalm.of_no_angle, calm]

private theorem isCalm_badgeCell : (badgeCell r).IsCalm := by
  refine Styles.isCalm_ofOptions ?_
  simp [HasNoAngle, IsCalm.of_no_angle, calm]

private theorem isCalm_badgeLabel : (badgeLabel r).IsCalm := by
  have width : IsCalmValue ((Component.badge.contentWidth r).map fun w => (Length.px w).text) := by
    intro text isSet
    obtain ⟨w, -, rfl⟩ := Option.map_eq_some_iff.mp isSet
    exact isCalm_of_hasNoAngle (Length.hasNoAngle_text_px w)
  refine Styles.isCalm_ofOptions ?_
  simp [HasNoAngle, IsCalm.of_no_angle, calm, width]

private theorem isCalm_ofBody (context : Context) (name : String) :
    IsCalm ((ofBody r context).css name).toList := by
  have background := Styles.isCalm_iff_all.mp (isCalm_backgroundStyles calm)
  refine isCalm_css fun styles => all_ofBody background (isCalm_bodyCell calm) ?_ ?_ ?_ ?_ ?_ ?_
  · exact fun text isSet => ⟨by simp [HasNoAngle], calm "border-radius" text isSet⟩
  · exact ⟨by simp [HasNoAngle], .of_no_angle (by simp)⟩
  · exact ⟨by simp [HasNoAngle], .of_no_angle (by simp)⟩
  · exact ⟨by simp [HasNoAngle], isCalm_of_hasNoAngle (Length.hasNoAngle_text_px context.width)⟩
  · exact ⟨by simp [HasNoAngle], .of_no_angle (by simp)⟩
  · exact ⟨by simp [HasNoAngle], .of_no_angle (by simp)⟩

private theorem isCalm_ofBadge (name : String) : IsCalm ((ofBadge r).css name).toList := by
  have table := Styles.isCalm_iff_all.mp (isCalm_badgeTable calm)
  exact isCalm_css fun _ => all_ofBadge table (isCalm_badgeCell calm) (isCalm_badgeLabel calm)

theorem isCalm_ofComponent (c : Component) (context : Context) (name : String) :
    IsCalm ((ofComponent c r context).css name).toList := by
  cases c with
  | body => exact isCalm_ofBody calm context name
  | badge => exact isCalm_ofBadge calm name
  | raw => exact isCalm_css nofun

end Buckets

end MailMarkup
