import MailMarkup.Proofs.ResolutionExactness
import MailMarkup.Proofs.StyleDeclarations

/-!
# Where the background is declared

No bucket declares a property without a value, since no text that is set is empty. The background
of a body stands in the bucket of its outermost table, or else in those of its column, and nowhere
if there is neither an image nor a color.
-/
namespace MailMarkup

/-- The combined property, or one that belongs to it. -/
def isBackground (property : String) : Bool :=
  ['b', 'a', 'c', 'k', 'g', 'r', 'o', 'u', 'n', 'd'].isPrefixOf property.toList

namespace Styles

def IsFilled (s : Styles) : Prop := s.All fun _ value => value ≠ ""

private theorem isFilled_ofOptions {declarations : List (String × Option String)}
    (filled : ∀ d ∈ declarations, d.2 ≠ some "") : (ofOptions declarations).IsFilled := by
  refine all_ofOptions fun d member text isSet => ?_
  rintro rfl
  exact filled d member isSet

def backgrounds (s : Styles) : List (String × String) := s.select isBackground

end Styles

private theorem Length.text_px_ne_empty (x : Float) : (Length.px x).text ≠ "" := by
  have suffix : LengthUnit.px.suffix ≠ "" := by decide
  simp [text, px, suffix]

section Filled

variable {r : Resolution} (filled : ∀ name, r.raw? name ≠ some "")
include filled

private theorem isFilled_backgroundStyles : (backgroundStyles r).IsFilled := by
  unfold backgroundStyles
  split
  · refine Styles.isFilled_ofOptions ?_
    simp [filled, BackgroundPosition.ofAttributes]
  · refine Styles.isFilled_ofOptions ?_
    simp [filled]

namespace Buckets

private theorem isFilled_bodyCell : (bodyCell r).IsFilled := by
  refine Styles.isFilled_ofOptions ?_
  simp [filled]

private theorem isFilled_badgeTable : (badgeTable r).IsFilled := by
  refine Styles.isFilled_ofOptions ?_
  simp [filled]

private theorem isFilled_badgeCell : (badgeCell r).IsFilled := by
  refine Styles.isFilled_ofOptions ?_
  simp [filled]

private theorem isFilled_badgeLabel : (badgeLabel r).IsFilled := by
  refine Styles.isFilled_ofOptions ?_
  simp [filled, Length.text_px_ne_empty]

end Buckets

end Filled

section Plain

private theorem all_backgroundStyles (r : Resolution) :
    (backgroundStyles r).All fun property _ => isBackground property = true := by
  unfold backgroundStyles
  split <;>
  · refine Styles.all_ofOptions ?_
    simp [isBackground]

namespace Buckets

private theorem plain_bodyCell (r : Resolution) :
    (bodyCell r).All fun property _ => isBackground property = false := by
  refine Styles.all_ofOptions ?_
  simp [isBackground, List.isPrefixOf_cons_cons]

private theorem plain_badgeTable (r : Resolution) :
    (badgeTable r).All fun property _ => isBackground property = false := by
  refine Styles.all_ofOptions ?_
  simp [isBackground, List.isPrefixOf_cons_cons]

private theorem plain_badgeCell {r : Resolution} (colorless : r.raw? "background-color" = none) :
    (badgeCell r).All fun property _ => isBackground property = false := by
  refine Styles.all_ofOptions ?_
  simp [isBackground, List.isPrefixOf_cons_cons, colorless]

private theorem plain_badgeLabel {r : Resolution} (colorless : r.raw? "background-color" = none) :
    (badgeLabel r).All fun property _ => isBackground property = false := by
  refine Styles.all_ofOptions ?_
  simp [isBackground, List.isPrefixOf_cons_cons, colorless]

end Buckets

end Plain

namespace Buckets

variable {r : Resolution} {context : Context} {name : String} {styles : Styles}

private theorem isFilled_of_get? {c : Component} (filled : ∀ name, r.raw? name ≠ some "")
    (found : (ofComponent c r context).get? name = some styles) : styles.IsFilled := by
  cases c with
  | body =>
    have radius : ∀ text ∈ r.raw? "border-radius", text ≠ "" := by
      rintro _ isSet rfl
      exact filled _ isSet
    exact all_ofBody (isFilled_backgroundStyles filled) (isFilled_bodyCell filled) radius
      (by decide) (by decide) (Length.text_px_ne_empty _) (by decide) (by decide) found
  | badge =>
    exact all_ofBadge (isFilled_badgeTable filled) (isFilled_badgeCell filled)
      (isFilled_badgeLabel filled) found
  | raw => cases found

/-- The defaults for the size, the position and the repetition of an image have no effect without
one. -/
theorem backgrounds_eq_nil {c : Component} (imageless : r.raw? "background-url" = none)
    (colorless : r.raw? "background-color" = none)
    (found : (ofComponent c r context).get? name = some styles) : styles.backgrounds = [] := by
  refine Styles.select_eq_nil ?_
  cases c with
  | body =>
    have background : backgroundStyles r = .empty := by
      rw [backgroundStyles, imageless, colorless]
      rfl
    have none : (backgroundStyles r).All fun property _ => isBackground property = false := by
      rw [background]
      exact Styles.all_empty
    exact all_ofBody none (plain_bodyCell r) (fun _ _ => by decide) (by decide) (by decide)
      (by decide) (by decide) (by decide) found
  | badge =>
    exact all_ofBadge (plain_badgeTable r) (plain_badgeCell colorless)
      (plain_badgeLabel colorless) found
  | raw => cases found

/-- The combined property would replace those that belong to an image. -/
theorem not_contains_background (imaged : (r.raw? "background-url").isSome = true)
    (found : (ofBody r context).get? name = some styles) :
    styles.contains "background" = false := by
  refine Styles.All.not_contains ?_
  obtain ⟨url, isSet⟩ := Option.isSome_iff_exists.mp imaged
  have background : (backgroundStyles r).All fun property _ => property ≠ "background" := by
    rw [backgroundStyles, isSet]
    refine Styles.all_ofOptions ?_
    simp
  have cell : (bodyCell r).All fun property _ => property ≠ "background" := by
    refine Styles.all_ofOptions ?_
    simp
  exact all_ofBody background cell (fun _ _ => by decide) (by decide) (by decide) (by decide)
    (by decide) (by decide) found

/-- The background declarations of a bucket, if there is such a bucket. -/
def backgrounds (b : Buckets) (name : String) : Option (List (String × String)) :=
  (b.get? name).map Styles.backgrounds

private theorem backgrounds_ofBody (r : Resolution) (context : Context) (name : String) :
    (ofBody r context).backgrounds name =
      [("tableFullwidth", (outerBackground r).backgrounds),
        ("table", (innerBackground r).backgrounds), ("td", []),
        ("div", (innerBackground r).backgrounds), ("innerDiv", [])].lookup name := by
  have cell : (bodyCell r).select isBackground = [] := Styles.select_eq_nil (plain_bodyCell r)
  have radius : isBackground "border-radius" = false := by decide
  have width : isBackground "width" = false := by decide
  have margin : isBackground "margin" = false := by decide
  have column : isBackground "max-width" = false := by decide
  rw [backgrounds, ofBody, Table.get?_ofList (by simp), ← Table.lookup_map]
  simp only [List.map_cons, List.map_nil, Styles.backgrounds, Styles.select_set? radius,
    Styles.select_set width, Styles.select_set margin, Styles.select_set column, cell]
  rfl

/-- Every bucket declares a property once and with a value, and none without an image or a color
anything of a background. -/
structure AreTidy (r : Resolution) (b : Buckets) : Prop where
  distinct : ∀ name styles, b.get? name = some styles → (styles.declarations.map Prod.fst).Nodup
  filled : ∀ name styles, b.get? name = some styles → ∀ d ∈ styles.declarations, d.2 ≠ ""
  plain : r.raw? "background-url" = none → r.raw? "background-color" = none →
    ∀ name styles, b.get? name = some styles → styles.backgrounds = []

/-- A body declares its background in one place. -/
structure PlaceBackground (r : Resolution) (b : Buckets) : Prop where
  outermost : (r.raw? "full-width").isSome = true →
    b.backgrounds "tableFullwidth" = some (backgroundStyles r).declarations ∧
      b.backgrounds "table" = some [] ∧ b.backgrounds "div" = some []
  column : r.raw? "full-width" = none →
    b.backgrounds "tableFullwidth" = some [] ∧
      b.backgrounds "table" = some (backgroundStyles r).declarations ∧
      b.backgrounds "div" = some (backgroundStyles r).declarations
  elsewhere : b.backgrounds "td" = some [] ∧ b.backgrounds "innerDiv" = some []
  discrete : (r.raw? "background-url").isSome = true →
    ∀ name styles, b.get? name = some styles → styles.contains "background" = false

private theorem isFullWidth_resolve (defaults own : Table String) :
    let r := Resolution.resolve .body defaults own
    isFullWidth r = (r.raw? "full-width").isSome := by
  intro r
  have choice : ∀ type ∈ Component.body.typeOf? "full-width", type = .choice ["full-width"] := by
    decide
  rw [isFullWidth]
  cases isSet : r.raw? "full-width" with
  | none => rfl
  | some text =>
    have word := List.mem_singleton.mp (Resolution.mem_of_raw?_choice choice isSet)
    rw [word]
    rfl

private theorem placeBackground_ofBody (defaults own : Table String) (context : Context) :
    let r := Resolution.resolve .body defaults own
    PlaceBackground r (ofBody r context) := by
  intro r
  have whole : (backgroundStyles r).backgrounds = (backgroundStyles r).declarations :=
    Styles.select_eq_self (all_backgroundStyles r)
  have width : isFullWidth r = (r.raw? "full-width").isSome := isFullWidth_resolve defaults own
  refine ⟨fun isSet => ?_, fun unset => ?_, ?_, fun imaged _ _ => not_contains_background imaged⟩
  · rw [isSet] at width
    simp only [backgrounds_ofBody, outerBackground, innerBackground, width, if_true, whole]
    exact ⟨rfl, rfl, rfl⟩
  · rw [unset, Option.isSome_none] at width
    simp only [backgrounds_ofBody, outerBackground, innerBackground, width,
      if_neg Bool.false_ne_true, whole]
    exact ⟨rfl, rfl, rfl⟩
  · simp only [backgrounds_ofBody]
    exact ⟨rfl, rfl⟩

/-- Buckets are tidy whatever the tables and the surroundings, and those of a body declare its
background in one place. -/
theorem ofComponent_areTidy (c : Component) (defaults own : Table String) (context : Context) :
    let r := Resolution.resolve c defaults own
    let body := Resolution.resolve .body defaults own
    AreTidy r (ofComponent c r context) ∧ PlaceBackground body (ofComponent .body body context) := by
  intro r body
  refine ⟨⟨?_, ?_, ?_⟩, placeBackground_ofBody defaults own context⟩
  · exact fun _ styles _ => styles.distinct
  · exact fun _ _ => isFilled_of_get? (Resolution.raw?_ne_empty c defaults own)
  · exact fun imageless colorless _ _ => backgrounds_eq_nil imageless colorless

end Buckets

end MailMarkup
