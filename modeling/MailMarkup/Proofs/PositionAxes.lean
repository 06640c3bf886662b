import MailMarkup.Proofs.BackgroundPlacement
import MailMarkup.Proofs.WordSplitting

/-!
# The axes of a position

A position is brought into one form, the horizontal word before the vertical one. Only a text of two
vertical words has none: it leaves a vertical word on the horizontal axis. Every other text comes to
a pair that reads again as it is. The attribute of one axis takes the place of the word on that axis
and leaves the other axis alone.
-/
namespace MailMarkup
open Text

namespace BackgroundPosition

variable {first second x y s t : String} {words : List String}

theorem isVertical_iff : isVertical x = true ↔ x = "top" ∨ x = "bottom" := by
  simp [isVertical]

theorem isHorizontal_iff : isHorizontal x = true ↔ x = "left" ∨ x = "right" := by
  simp [isHorizontal]

private theorem isVertical_of_isHorizontal (horizontal : isHorizontal x = true) :
    isVertical x = false := by
  rcases isHorizontal_iff.mp horizontal with rfl | rfl <;> decide

private theorem isHorizontal_of_isVertical (vertical : isVertical x = true) :
    isHorizontal x = false := by
  rcases isVertical_iff.mp vertical with rfl | rfl <;> decide

/-- Two words that are both vertical. -/
def AreVertical : List String → Prop
  | [first, second] => isVertical first = true ∧ isVertical second = true
  | _ => False

/-- Neither word belongs on the axis of the other. -/
structure IsPlaced (x y : String) : Prop where
  notVertical : isVertical x = false
  notSwapped : x = "center" → isHorizontal y = false

private theorem ofWords_pair (first second : String) : ofWords [first, second] =
    if isVertical first = true ∨ first = "center" ∧ isHorizontal second = true
    then (second, first) else (first, second) := by
  simp [ofWords]

private theorem IsPlaced.ofWords_eq (placed : IsPlaced x y) : ofWords [x, y] = (x, y) := by
  rw [ofWords_pair, if_neg]
  rintro (vertical | ⟨center, horizontal⟩)
  · rw [placed.notVertical] at vertical
    cases vertical
  · rw [placed.notSwapped center] at horizontal
    cases horizontal

/-- The words of every other text find their places. -/
theorem isPlaced_ofWords (other : ¬ AreVertical words) :
    IsPlaced (ofWords words).1 (ofWords words).2 := by
  have center : isVertical "center" = false ∧ isHorizontal "center" = false := by decide
  have top : isHorizontal "top" = false := by decide
  match words with
  | [] => exact ⟨center.1, fun _ => top⟩
  | [word] =>
    rw [ofWords]
    split
    · next vertical => exact ⟨center.1, fun _ => isHorizontal_of_isVertical vertical⟩
    · next other => exact ⟨Bool.eq_false_iff.mpr other, fun _ => center.2⟩
  | [first, second] =>
    rw [ofWords_pair]
    split
    · next swapped =>
      rcases swapped with vertical | ⟨same, horizontal⟩
      · have secondFree : isVertical second = false :=
          Bool.eq_false_iff.mpr fun both => other ⟨vertical, both⟩
        exact ⟨secondFree, fun _ => isHorizontal_of_isVertical vertical⟩
      · exact ⟨isVertical_of_isHorizontal horizontal, fun _ => same ▸ center.2⟩
    · next kept =>
      obtain ⟨notVertical, notSwapped⟩ := not_or.mp kept
      exact ⟨Bool.eq_false_iff.mpr notVertical,
        fun same => Bool.eq_false_iff.mpr fun horizontal => notSwapped ⟨same, horizontal⟩⟩
  | _ :: _ :: _ :: _ => exact ⟨center.1, fun _ => top⟩

private theorem isVertical_ofWords (both : AreVertical words) :
    isVertical (ofWords words).1 = true := by
  match words with
  | [first, second] =>
    obtain ⟨here, there⟩ := both
    rw [ofWords_pair, if_pos (.inl here)]
    exact there

/-- A vertical word is found on either side. -/
theorem ofWords_swap (vertical : isVertical first = true ∨ isVertical second = true)
    (other : ¬ AreVertical [first, second]) :
    ofWords [first, second] = ofWords [second, first] := by
  have swapped {a b : String} (here : isVertical a = true) (there : ¬ AreVertical [b, a]) :
      ofWords [a, b] = ofWords [b, a] := by
    have free : isVertical b = false := Bool.eq_false_iff.mpr fun both => there ⟨both, here⟩
    have placed : IsPlaced b a := ⟨free, fun _ => isHorizontal_of_isVertical here⟩
    rw [placed.ofWords_eq, ofWords_pair, if_pos (.inl here)]
  rcases vertical with here | here
  · exact swapped here fun both => other ⟨both.2, both.1⟩
  · exact (swapped here other).symm

/-- The words of a position are words of the text, or of the text that stands for none. -/
theorem wordsOf_axes (s : String) :
    wordsOf (axes s).1 = [(axes s).1] ∧ wordsOf (axes s).2 = [(axes s).2] := by
  have given {word : String} : word ∈ wordsOf s → wordsOf word = [word] := wordsOf_of_mem
  have center : wordsOf "center" = ["center"] := by decide +kernel
  have top : wordsOf "top" = ["top"] := by decide +kernel
  rw [axes]
  generalize wordsOf s = words at given
  match words with
  | [] => exact ⟨center, top⟩
  | [word] =>
    rw [ofWords]
    split
    · exact ⟨center, given (List.mem_singleton_self word)⟩
    · exact ⟨given (List.mem_singleton_self word), center⟩
  | [first, second] =>
    have here : wordsOf first = [first] := given List.mem_cons_self
    have there : wordsOf second = [second] := given (by simp)
    rw [ofWords_pair]
    split
    · exact ⟨there, here⟩
    · exact ⟨here, there⟩
  | _ :: _ :: _ :: _ => exact ⟨center, top⟩

theorem axes_written (other : ¬ AreVertical (wordsOf s)) :
    axes ((axes s).1 ++ " " ++ (axes s).2) = axes s := by
  have words : wordsOf ((axes s).1 ++ " " ++ (axes s).2) = [(axes s).1, (axes s).2] :=
    @wordsOf_joined [(axes s).1, (axes s).2] (by simp [wordsOf_axes])
  rw [axes, words]
  exact (isPlaced_ofWords other).ofWords_eq

end BackgroundPosition

namespace Resolution

variable {c : Component} {name other text : String} (defaults own : Table String)

/-- An attribute of any text is set to what the node itself gives for it. -/
theorem raw?_insert_self (typed : c.typeOf? name = some .text)
    (filled : isBlankText text = false) :
    (resolve c defaults (own.insert name text)).raw? name = some (trimmed text) := by
  have counts : pick? c.schema defaults (own.insert name text) name = some text := by
    rw [pick?, Table.get?_insert, if_pos rfl, nonblank_eq_some_iff.mpr ⟨rfl, filled⟩,
      Option.some_or]
  rw [raw?, get?_settings, typed, counts]
  rfl

/-- What a node gives for one attribute does not count for another. -/
theorem raw?_insert_of_ne (different : other ≠ name) :
    (resolve c defaults (own.insert name text)).raw? other =
      (resolve c defaults own).raw? other := by
  have same : pick? c.schema defaults (own.insert name text) other =
      pick? c.schema defaults own other := by
    rw [pick?, pick?, Table.get?_insert, if_neg different]
  rw [raw?, raw?, get?_settings, get?_settings, same]

end Resolution

namespace BackgroundPosition

/-- A position is written with a horizontal and a vertical text: on each axis the attribute of that
axis, and else what the text of the position has there. -/
structure HasAxes (r : Resolution) (x y : String) : Prop where
  written : ofAttributes r = x ++ " " ++ y
  horizontal : x = (r.raw? "background-position-x").getD
    (axes ((r.raw? "background-position").getD "")).1
  vertical : y = (r.raw? "background-position-y").getD
    (axes ((r.raw? "background-position").getD "")).2

inductive Axis where
  | horizontal
  | vertical

namespace Axis

def property : Axis → String
  | horizontal => "background-position-x"
  | vertical => "background-position-y"

def select : Axis → String × String → String
  | horizontal => Prod.fst
  | vertical => Prod.snd

private theorem typeOf?_property (axis : Axis) :
    Component.body.typeOf? axis.property = some .text := by
  cases axis <;> decide

private theorem position_ne_property (axis : Axis) : "background-position" ≠ axis.property := by
  cases axis <;> decide

private theorem property_injective : Function.Injective property := by
  rintro ⟨⟩ ⟨⟩ same <;> first | rfl | exact absurd same (by decide)

end Axis

/-- The text of the position on an axis. -/
def onAxis (r : Resolution) (axis : Axis) : String :=
  (r.raw? axis.property).getD (axis.select (axes ((r.raw? "background-position").getD "")))

theorem hasAxes_iff {r : Resolution} {x y : String} :
    HasAxes r x y ↔ x = onAxis r .horizontal ∧ y = onAxis r .vertical := by
  constructor
  · exact fun has => ⟨has.horizontal, has.vertical⟩
  · rintro ⟨rfl, rfl⟩
    exact ⟨rfl, rfl, rfl⟩

theorem hasAxes (r : Resolution) : HasAxes r (onAxis r .horizontal) (onAxis r .vertical) :=
  hasAxes_iff.mpr ⟨rfl, rfl⟩

section Inserted

variable (defaults own : Table String) (axis : Axis)

private theorem onAxis_insert_self (filled : isBlankText t = false) :
    onAxis (.resolve .body defaults (own.insert axis.property t)) axis = trimmed t := by
  rw [onAxis, Resolution.raw?_insert_self defaults own axis.typeOf?_property filled,
    Option.getD_some]

private theorem onAxis_insert_of_ne {other : Axis} (different : other ≠ axis) :
    onAxis (.resolve .body defaults (own.insert axis.property t)) other =
      onAxis (.resolve .body defaults own) other := by
  rw [onAxis, Resolution.raw?_insert_of_ne defaults own (Axis.property_injective.ne different),
    Resolution.raw?_insert_of_ne defaults own axis.position_ne_property, onAxis]

end Inserted

/-- What a text comes to as a position. -/
structure IsNormalised (s : String) : Prop where
  vertical_iff : isVertical (axes s).1 = true ↔ AreVertical (wordsOf s)
  stable : ¬ AreVertical (wordsOf s) → axes ((axes s).1 ++ " " ++ (axes s).2) = axes s
  swapped : ∀ t first second, wordsOf s = [first, second] → wordsOf t = [second, first] →
    isVertical first = true ∨ isVertical second = true → ¬ AreVertical (wordsOf s) →
      axes t = axes s
  uncounted : wordsOf s = [] ∨ 2 < (wordsOf s).length → axes s = ("center", "top")

theorem isNormalised (s : String) : IsNormalised s where
  vertical_iff := by
    refine ⟨fun vertical => ?_, isVertical_ofWords⟩
    by_contra other
    have free := (isPlaced_ofWords other).notVertical
    rw [axes, free] at vertical
    cases vertical
  stable := axes_written
  swapped t first second here there vertical other := by
    rw [here] at other
    rw [axes, axes, here, there, ofWords_swap vertical other]
  uncounted count := by
    rw [axes]
    generalize wordsOf s = words at count
    rcases count with rfl | several
    · rfl
    · match words with
      | _ :: _ :: _ :: _ => rfl

/-- Positions are brought into one form, and the attribute of an axis replaces that axis and no
other, whatever the text of the position. -/
theorem axes_areNormalised (s : String) (r : Resolution) (defaults own : Table String) :
    IsNormalised s ∧ (∃ x y, HasAxes r x y) ∧
    ∀ x y, HasAxes (.resolve .body defaults own) x y → ∀ t, isBlankText t = false →
      HasAxes (.resolve .body defaults (own.insert "background-position-x" t)) (trimmed t) y ∧
      HasAxes (.resolve .body defaults (own.insert "background-position-y" t)) x (trimmed t) := by
  refine ⟨isNormalised s, ⟨_, _, hasAxes r⟩, fun x y has t filled => ?_⟩
  obtain ⟨rfl, rfl⟩ := hasAxes_iff.mp has
  rw [hasAxes_iff, hasAxes_iff]
  refine ⟨⟨?_, ?_⟩, ?_, ?_⟩
  · exact (onAxis_insert_self defaults own .horizontal filled).symm
  · exact (onAxis_insert_of_ne defaults own .horizontal (by nofun)).symm
  · exact (onAxis_insert_of_ne defaults own .vertical (by nofun)).symm
  · exact (onAxis_insert_self defaults own .vertical filled).symm

/-- The words may be given in either order, and the attribute of one axis hides only one of them. -/
theorem axes_areNormalised_bottom :
    let s := "left\tbottom"
    let own := Table.ofList [("background-position", s)]
    wordsOf s = ["left", "bottom"] ∧ wordsOf "bottom left" = ["bottom", "left"] ∧
      axes "bottom left" = axes s ∧ axes ((axes s).1 ++ " " ++ (axes s).2) = axes s ∧
      isBlankText " 30px " = false ∧ ofAttributes (.resolve .body .empty
        (own.insert "background-position-x" " 30px ")) = "30px bottom" := by
  intro s own
  obtain ⟨normal, ⟨x, y, has⟩, replaced⟩ :=
    axes_areNormalised s (.resolve .body .empty own) .empty own
  have words : wordsOf s = ["left", "bottom"] ∧ wordsOf "bottom left" = ["bottom", "left"] := by
    decide +kernel
  have other : ¬ AreVertical (wordsOf s) := by
    rw [words.1]
    exact fun both => absurd both.1 (by decide)
  have swapped := normal.swapped "bottom left" _ _ words.1 words.2 (.inr (by decide)) other
  have filled : isBlankText " 30px " = false := by decide
  have written := (replaced x y has " 30px " filled).1.written
  have vertical : y = "bottom" := by
    rw [has.vertical]
    decide +kernel
  have trimmed : trimmed " 30px " = "30px" := by decide +kernel
  refine ⟨words.1, words.2, swapped, normal.stable other, filled, ?_⟩
  rw [written, vertical, trimmed]
  decide +kernel

end BackgroundPosition

end MailMarkup
