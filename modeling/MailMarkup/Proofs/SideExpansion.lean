import MailMarkup.Layout.Box
import MailMarkup.Proofs.AdmittedLengths
import MailMarkup.Proofs.FirstFailure

/-!
# The sides of a box attribute

One to four lengths stand for the four sides of a box. The attribute of a side wins over them; where
it is not set, the side takes the length that the rule gives to it, and if there are no lengths it
takes zero. So a text with one, two or three lengths says no more than the text that spells out all
four of them, wherever it stands among the texts and the defaults of a node.
-/
namespace MailMarkup
open Text

/-- One item for each side of a box. -/
structure PerSide (α : Type) where
  top : α
  right : α
  bottom : α
  left : α
  deriving DecidableEq

namespace PerSide

variable {α β : Type}

/-- One item is for all sides; of two the second is for the flanks, of three the last for the
bottom, and four are for the sides clockwise from the top. -/
def ofList? : List α → Option (PerSide α)
  | [all] => some ⟨all, all, all, all⟩
  | [ends, flanks] => some ⟨ends, flanks, ends, flanks⟩
  | [top, flanks, bottom] => some ⟨top, flanks, bottom, flanks⟩
  | [top, right, bottom, left] => some ⟨top, right, bottom, left⟩
  | _ => none

def toList (p : PerSide α) : List α := [p.top, p.right, p.bottom, p.left]

/-- The item of a side. -/
def on (p : PerSide α) : Side → α
  | .top => p.top
  | .right => p.right
  | .bottom => p.bottom
  | .left => p.left

@[simp] theorem ofList?_toList (p : PerSide α) : ofList? p.toList = some p := rfl

private theorem exists_ofList? {xs : List α} (atLeast : 1 ≤ xs.length) (atMost : xs.length ≤ 4) :
    ∃ p, ofList? xs = some p := by
  match xs, atLeast, atMost with
  | [_], _, _ | [_, _], _, _ | [_, _, _], _, _ | [_, _, _, _], _, _ => exact ⟨_, rfl⟩

/-- Each item of a side is one of those given. -/
theorem mem_of_ofList? {xs : List α} {p : PerSide α} (given : ofList? xs = some p) :
    ∀ x ∈ p.toList, x ∈ xs := by
  unfold ofList? at given
  split at given <;> cases given <;> simp [toList]

private theorem exists_related {R : α → β → Prop} {xs : List α} {ys : List β} {p : PerSide α}
    (given : ofList? xs = some p) (related : List.Forall₂ R xs ys) :
    ∃ q, ofList? ys = some q ∧ ∀ side, R (p.on side) (q.on side) := by
  cases related with
  | nil => cases given
  | cons first rest =>
    cases rest with
    | nil =>
      cases given
      exact ⟨_, rfl, fun side => by cases side <;> exact first⟩
    | cons second rest =>
      cases rest with
      | nil =>
        cases given
        exact ⟨_, rfl, fun | .top | .bottom => first | .right | .left => second⟩
      | cons third rest =>
        cases rest with
        | nil =>
          cases given
          exact ⟨_, rfl, fun | .top => first | .right | .left => second | .bottom => third⟩
        | cons fourth rest =>
          cases rest with
          | nil =>
            cases given
            exact ⟨_, rfl,
              fun | .top => first | .right => second | .bottom => third | .left => fourth⟩
          | cons => cases given

private theorem forall₂_toList {R : α → β → Prop} {p : PerSide α} {q : PerSide β}
    (related : ∀ side, R (p.on side) (q.on side)) : List.Forall₂ R p.toList q.toList :=
  .cons (related .top) (.cons (related .right) (.cons (related .bottom) (.cons (related .left) .nil)))

private theorem sideOf_eq {lengths : List Length} {p : PerSide Length}
    (given : ofList? lengths = some p) (side : Side) : sideOf lengths side = p.on side := by
  unfold ofList? at given
  split at given <;> cases given <;> cases side <;> rfl

end PerSide

namespace LengthRule

variable {r : LengthRule}

/-- A rule changes the unit of a zero and no number. -/
theorem Admits.value_eq {l admitted : Length} (h : r.Admits l admitted) :
    admitted.value = l.value := by
  cases h <;> rfl

/-- A shorthand is read as one length for each of one to four tokens. -/
theorem exists_sides_of_read? {units : List LengthUnit} {s : String} {value : Value}
    (known : units ≠ []) (read : LengthRule.read? ⟨units, false, 1, 4⟩ s = some value) :
    ∃ lengths tokens admitted, value = .shorthand lengths ∧
      PerSide.ofList? (wordsOf s) = some tokens ∧ PerSide.ofList? lengths = some admitted ∧
      ∀ side, Takes ⟨units, false, 1, 4⟩ (tokens.on side) (admitted.on side) := by
  obtain ⟨atLeast, atMost, yields⟩ := (read?_eq_some_iff (le_refl 1) known).mp read
  obtain ⟨tokens, given⟩ := PerSide.exists_ofList? atLeast atMost
  generalize wordsOf s = words at given yields
  cases yields with
  | length one => cases one
  | shorthand _ taken =>
    obtain ⟨admitted, found, each⟩ := PerSide.exists_related given taken
    exact ⟨_, tokens, admitted, rfl, given, found, each⟩

/-- Four tokens are read side by side. -/
theorem read?_of_sides {units : List LengthUnit} {s : String} (known : units ≠ [])
    {tokens : PerSide String} {admitted : PerSide Length} (words : wordsOf s = tokens.toList)
    (each : ∀ side, Takes ⟨units, false, 1, 4⟩ (tokens.on side) (admitted.on side)) :
    LengthRule.read? ⟨units, false, 1, 4⟩ s = some (.shorthand admitted.toList) := by
  rw [read?_eq_some_iff (le_refl 1) known, words]
  exact ⟨by simp [PerSide.toList], le_refl 4,
    .shorthand (show 1 < 4 by decide) (PerSide.forall₂_toList each)⟩

end LengthRule

/-- The attributes that have a length for each side. -/
def boxNames : List String := ["padding", "inner-padding", "text-padding"]

def Side.attribute (side : Side) (name : String) : String := name ++ "-" ++ side.name

private theorem Component.typeOf?_box (c : Component) {name : String} (box : name ∈ boxNames) :
    c.typeOf? name = none ∨ c.typeOf? name = some (.shorthand pxOrPercent) := by
  have all : ∀ name ∈ boxNames,
      c.typeOf? name = none ∨ c.typeOf? name = some (.shorthand pxOrPercent) := by
    cases c <;> decide
  exact all name box

private theorem Component.typeOf?_side (c : Component) {name : String} (box : name ∈ boxNames)
    (side : Side) : c.typeOf? (side.attribute name) = none ∨
      c.typeOf? (side.attribute name) = some (.length pxOrPercent) := by
  have all : ∀ name ∈ boxNames, c.typeOf? (side.attribute name) = none ∨
      c.typeOf? (side.attribute name) = some (.length pxOrPercent) := by
    cases c <;> cases side <;> decide
  exact all name box

private theorem not_mem_boxNames_of_side {name : String} (box : name ∈ boxNames) (side : Side) :
    side.attribute name ∉ boxNames := by
  have all : ∀ name ∈ boxNames, side.attribute name ∉ boxNames := by cases side <;> decide
  exact all name box

/-- The number that a value has for a side, the attribute of the side aside. -/
def Value.onSide (side : Side) : Value → Float
  | .shorthand lengths => (sideOf lengths side).value
  | .length l => l.value
  | _ => 0

namespace Resolution

variable {c : Component} {defaults own : Table String} {name : String}

/-- The attribute of a side is set to a single length. -/
theorem exists_length_of_side (box : name ∈ boxNames) {side : Side} {value : Value}
    (isSet : (resolve c defaults own).value? (side.attribute name) = some value) :
    ∃ l, value = .length l := by
  obtain ⟨type, text, declared, -, read⟩ := exists_raw_of_value? isSet
  rcases c.typeOf?_side box side with none | typed
  · cases none.symm.trans declared
  · cases typed.symm.trans declared
    exact LengthRule.exists_length_of_read? rfl read

private theorem exists_sides_of_box (box : name ∈ boxNames) {value : Value}
    (isSet : (resolve c defaults own).value? name = some value) :
    ∃ text lengths tokens admitted, (resolve c defaults own).raw? name = some text ∧
      value = .shorthand lengths ∧ PerSide.ofList? (wordsOf text) = some tokens ∧
      PerSide.ofList? lengths = some admitted ∧
      ∀ side, ∃ l, Length.read? (tokens.on side) = some l ∧ (admitted.on side).value = l.value := by
  obtain ⟨type, text, declared, raw, read⟩ := exists_raw_of_value? isSet
  rcases c.typeOf?_box box with none | typed
  · cases none.symm.trans declared
  · cases typed.symm.trans declared
    obtain ⟨lengths, tokens, admitted, same, words, given, each⟩ :=
      LengthRule.exists_sides_of_read? (by decide) read
    refine ⟨text, lengths, tokens, admitted, raw, same, words, given, fun side => ?_⟩
    obtain ⟨l, found, admits⟩ := each side
    exact ⟨l, found, admits.value_eq⟩

/-- Where a side of a box takes its number from. -/
structure HasSide (r : Resolution) (name : String) (side : Side) : Prop where
  /-- The attribute of the side wins, if it is set. -/
  own : ∀ value, r.value? (side.attribute name) = some value →
    ∃ l, value = .length l ∧ r.side name side = l.value
  /-- Otherwise the side has the token that the rule gives to it. -/
  token : r.value? (side.attribute name) = none → ∀ text, r.raw? name = some text →
    ∃ tokens l, PerSide.ofList? (wordsOf text) = some tokens ∧
      Length.read? (tokens.on side) = some l ∧ r.side name side = l.value
  unset : r.value? (side.attribute name) = none → r.raw? name = none → r.side name side = 0

private theorem side_of_own {r : Resolution} {side : Side} {l : Length}
    (isSet : r.value? (side.attribute name) = some (.length l)) : r.side name side = l.value := by
  have found : r.value? (name ++ "-" ++ side.name) = some (.length l) := isSet
  rw [Resolution.side, found]

private theorem side_of_unset {r : Resolution} {side : Side}
    (unset : r.value? (side.attribute name) = none) :
    r.side name side = ((r.value? name).map (Value.onSide side)).getD 0 := by
  have none : r.value? (name ++ "-" ++ side.name) = none := unset
  rw [Resolution.side, none]
  cases r.value? name with
  | none => rfl
  | some value => cases value <;> rfl

private theorem exists_value_of_raw? {r : Resolution} {text : String}
    (isSet : r.raw? name = some text) : ∃ value, r.value? name = some value := by
  obtain ⟨setting, looked, -⟩ := Option.map_eq_some_iff.mp isSet
  exact ⟨setting.value, congrArg (Option.map Setting.value) looked⟩

private theorem hasSide (c : Component) (defaults own : Table String) (box : name ∈ boxNames)
    (side : Side) : (resolve c defaults own).HasSide name side where
  own value isSet := by
    obtain ⟨l, rfl⟩ := exists_length_of_side box isSet
    exact ⟨l, rfl, side_of_own isSet⟩
  token unset text raw := by
    obtain ⟨value, isSet⟩ := exists_value_of_raw? raw
    obtain ⟨_, lengths, tokens, admitted, found, rfl, words, given, each⟩ :=
      exists_sides_of_box box isSet
    cases raw.symm.trans found
    obtain ⟨l, read, number⟩ := each side
    refine ⟨tokens, l, words, read, ?_⟩
    rw [side_of_unset unset, isSet, Option.map_some, Option.getD_some, Value.onSide,
      PerSide.sideOf_eq given, number]
  unset unset noText := by
    have noValue : (resolve c defaults own).value? name = none :=
      Option.map_eq_none_iff.mpr (Option.map_eq_none_iff.mp noText)
    rw [side_of_unset unset, noValue]
    rfl

end Resolution

/-- The words of the second text are what the rule gives to the sides from the first. -/
def IsExplicit (s explicit : String) : Prop :=
  ∃ tokens, PerSide.ofList? (wordsOf s) = some tokens ∧ wordsOf explicit = tokens.toList

/-- The tokens of the sides, joined with spaces, are an explicit text. -/
theorem isExplicit_joined {s : String} {tokens : PerSide String}
    (given : PerSide.ofList? (wordsOf s) = some tokens) :
    IsExplicit s (joined " " tokens.toList) := by
  refine ⟨tokens, given, wordsOf_joined fun word member => ?_⟩
  exact wordsOf_of_mem (PerSide.mem_of_ofList? given word member)

theorem IsExplicit.not_blank {s explicit : String} (h : IsExplicit s explicit) :
    isBlankText s = false ∧ isBlankText explicit = false := by
  obtain ⟨tokens, given, words⟩ := h
  rw [← Bool.not_eq_true, ← Bool.not_eq_true, ← wordsOf_eq_nil_iff, ← wordsOf_eq_nil_iff, words]
  refine ⟨fun none => ?_, List.cons_ne_nil _ _⟩
  rw [none] at given
  cases given

/-- The text of a box attribute is kept, or it is accepted and made explicit. -/
def Component.Restates (c : Component) (name s restated : String) : Prop :=
  restated = s ∨ name ∈ boxNames ∧ IsExplicit s restated ∧
    ∃ type value, c.typeOf? name = some type ∧ Value.ofRaw name s type = .ok value

/-- Some of the accepted texts of box attributes are made explicit. -/
def Component.RestatesAll (c : Component) (t restated : Table String) : Prop :=
  ∀ name, Option.Rel (c.Restates name) (t.get? name) (restated.get? name)

namespace Component

variable {c : Component} {name : String}

theorem Restates.isBlankText {s restated : String} (h : c.Restates name s restated) :
    Text.isBlankText restated = Text.isBlankText s := by
  rcases h with rfl | ⟨-, explicit, -⟩
  · rfl
  · obtain ⟨solid, explicitSolid⟩ := explicit.not_blank
    rw [solid, explicitSolid]

/-- An accepted text may be made explicit with the tokens of its sides, joined with spaces. -/
theorem restates_joined {s : String} {type : AttributeType} {tokens : PerSide String}
    (box : name ∈ boxNames) (typed : c.typeOf? name = some type)
    (accepted : (Value.ofRaw name s type).toOption.isSome = true)
    (given : PerSide.ofList? (wordsOf s) = some tokens) :
    c.Restates name s (joined " " tokens.toList) := by
  obtain ⟨value, read⟩ := Option.isSome_iff_exists.mp accepted
  exact .inr ⟨box, isExplicit_joined given, type, value, typed,
    FirstFailure.toOption_eq_some_iff.mp read⟩

private theorem nonblank_restated {s restated : Option String}
    (h : Option.Rel (c.Restates name) s restated) :
    Option.Rel (c.Restates name) (nonblank s) (nonblank restated) := by
  cases h with
  | none => exact .none
  | some h =>
    rw [nonblank, nonblank, Option.filter_some, Option.filter_some, h.isBlankText]
    split
    · exact .some h
    · exact .none

private theorem or_restated {s restated other otherRestated : Option String}
    (first : Option.Rel (c.Restates name) s restated)
    (second : Option.Rel (c.Restates name) other otherRestated) :
    Option.Rel (c.Restates name) (s.or other) (restated.or otherRestated) := by
  cases first with
  | none => exact second
  | some h => exact .some h

theorem restates_refl (s : Option String) : Option.Rel (c.Restates name) s s := by
  cases s with
  | none => exact .none
  | some s => exact .some (.inl rfl)

theorem RestatesAll.insert {t : Table String} {s restated : String}
    (found : t.get? name = some s) (h : c.Restates name s restated) :
    c.RestatesAll t (t.insert name restated) := by
  intro other
  rw [Table.get?_insert]
  by_cases same : other = name
  · rw [if_pos same, same, found]
    exact .some h
  · rw [if_neg same]
    exact restates_refl _

private theorem pick?_restated {defaults own defaults' own' : Table String}
    (ofDefaults : c.RestatesAll defaults defaults') (ofOwn : c.RestatesAll own own')
    (name : String) : Option.Rel (c.Restates name) (pick? c.schema defaults own name)
      (pick? c.schema defaults' own' name) :=
  or_restated (nonblank_restated (ofOwn name))
    (or_restated (nonblank_restated (ofDefaults name)) (restates_refl _))

end Component

private theorem bind_related {α β α' β' : Type} {R : α → β → Prop} {S : α' → β' → Prop}
    {a : Option α}
    {b : Option β} {f : α → Option α'} {g : β → Option β'} (related : Option.Rel R a b)
    (each : ∀ x y, R x y → Option.Rel S (f x) (g y)) : Option.Rel S (a.bind f) (b.bind g) := by
  cases related with
  | none => exact .none
  | some h => exact each _ _ h

private theorem map_eq_of_related {α γ : Type} {R : α → α → Prop} {a b : Option α} {f : α → γ}
    (related : Option.Rel R a b) (each : ∀ x y, R x y → f y = f x) : b.map f = a.map f := by
  cases related with
  | none => rfl
  | some h => exact congrArg some (each _ _ h)

/-- Two settings of a box attribute that have the same length on each side, or that are the same. -/
def Setting.Agrees (name : String) (setting restated : Setting) : Prop :=
  restated = setting ∨ name ∈ boxNames ∧ ∃ lengths admitted, setting.value = .shorthand lengths ∧
    PerSide.ofList? lengths = some admitted ∧ restated.value = .shorthand admitted.toList

private theorem Setting.Agrees.onSide {name : String} {setting restated : Setting}
    (h : Agrees name setting restated) (side : Side) :
    restated.value.onSide side = setting.value.onSide side := by
  rcases h with rfl | ⟨-, lengths, admitted, value, given, restatedValue⟩
  · rfl
  · rw [value, restatedValue, Value.onSide, Value.onSide, PerSide.sideOf_eq given,
      PerSide.sideOf_eq (PerSide.ofList?_toList admitted)]

private theorem setting?_restated {c : Component} {name s restated : String} {type : AttributeType}
    (typed : c.typeOf? name = some type) (h : c.Restates name s restated) :
    Option.Rel (Setting.Agrees name) (setting? name s type) (setting? name restated type) := by
  rcases h with rfl | ⟨box, ⟨tokens, given, words⟩, type', value, typed', read⟩
  · cases setting? name restated type with
    | none => exact .none
    | some setting => exact .some (.inl rfl)
  · cases typed.symm.trans typed'
    rcases c.typeOf?_box box with none | shorthand
    · cases none.symm.trans typed
    · cases typed.symm.trans shorthand
      have readText := Value.ofRaw_eq_ok_iff.mp read
      obtain ⟨lengths, tokens', admitted, rfl, given', found, each⟩ :=
        LengthRule.exists_sides_of_read? (by decide) readText
      rw [wordsOf_trimmed] at given'
      cases given.symm.trans given'
      have reread : Value.ofRaw name restated (.shorthand Component.pxOrPercent) =
          .ok (.shorthand admitted.toList) := by
        refine Value.ofRaw_eq_ok_iff.mpr (LengthRule.read?_of_sides (by decide) ?_ each)
        rw [wordsOf_trimmed, words]
      rw [setting?, setting?, read, reread]
      exact .some (.inr ⟨box, lengths, admitted, rfl, found, rfl⟩)

namespace Resolution

variable {c : Component} {defaults own defaults' own' : Table String}
  (ofDefaults : c.RestatesAll defaults defaults') (ofOwn : c.RestatesAll own own')

include ofDefaults ofOwn

private theorem settings_restated (name : String) : Option.Rel (Setting.Agrees name)
    ((resolve c defaults own).settings.get? name)
    ((resolve c defaults' own').settings.get? name) := by
  have picked := Component.pick?_restated ofDefaults ofOwn name
  rw [get?_settings, get?_settings]
  cases typed : c.typeOf? name with
  | none => exact .none
  | some type =>
    rw [Option.bind_some, Option.bind_some]
    exact bind_related picked fun _ _ h => setting?_restated typed h

private theorem settings_of_other {name : String} (other : name ∉ boxNames) :
    (resolve c defaults' own').settings.get? name =
      (resolve c defaults own).settings.get? name := by
  have same := map_eq_of_related (f := id) (settings_restated ofDefaults ofOwn name)
    fun _ _ h => h.resolve_right fun box => other box.1
  rwa [Option.map_id, id, id] at same

private theorem value?_of_other {name : String} (other : name ∉ boxNames) :
    (resolve c defaults' own').value? name = (resolve c defaults own).value? name :=
  congrArg (Option.map Setting.value) (settings_of_other ofDefaults ofOwn other)

private theorem raw?_of_other {name : String} (other : name ∉ boxNames) :
    (resolve c defaults' own').raw? name = (resolve c defaults own).raw? name :=
  congrArg (Option.map Setting.raw) (settings_of_other ofDefaults ofOwn other)

private theorem side_restated {name : String} (box : name ∈ boxNames) (side : Side) :
    (resolve c defaults' own').side name side = (resolve c defaults own).side name side := by
  have same := value?_of_other ofDefaults ofOwn (not_mem_boxNames_of_side box side)
  cases isSet : (resolve c defaults own).value? (side.attribute name) with
  | some value =>
    obtain ⟨l, rfl⟩ := exists_length_of_side box isSet
    rw [side_of_own isSet, side_of_own (same.trans isSet)]
  | none =>
    have numbers := map_eq_of_related (settings_restated ofDefaults ofOwn name)
      fun _ _ h => h.onSide side
    rw [side_of_unset isSet, side_of_unset (same.trans isSet), value?, value?, Option.map_map,
      Option.map_map]
    exact congrArg (Option.getD · 0) numbers

private theorem sides_restated {name : String} (box : name ∈ boxNames) :
    Sides.ofAttribute (resolve c defaults' own') name =
      Sides.ofAttribute (resolve c defaults own) name := by
  simp only [Sides.ofAttribute, side_restated ofDefaults ofOwn box]

private theorem border_restated : Border.ofAttributes (resolve c defaults' own') =
    Border.ofAttributes (resolve c defaults own) := by
  have same (name : String) (other : name ∉ boxNames) :=
    raw?_of_other ofDefaults ofOwn other
  rw [Border.ofAttributes, Border.ofAttributes, same "border" (by decide),
    same "border-left" (by decide), same "border-right" (by decide)]

private theorem boxWidths_restated (context : Context) :
    BoxWidths.ofAttributes (resolve c defaults' own') context =
      BoxWidths.ofAttributes (resolve c defaults own) context := by
  rw [BoxWidths.ofAttributes, BoxWidths.ofAttributes, border_restated ofDefaults ofOwn,
    sides_restated ofDefaults ofOwn (by decide)]

private theorem contentWidth_restated :
    c.contentWidth (resolve c defaults' own') = c.contentWidth (resolve c defaults own) := by
  cases c with
  | badge =>
    rw [Component.contentWidth, Component.contentWidth, border_restated ofDefaults ofOwn,
      sides_restated ofDefaults ofOwn (by decide), raw?_of_other ofDefaults ofOwn (by decide)]
  | _ => rfl

end Resolution

/-- Two resolutions of a node make the same boxes. -/
structure Resolution.SameBoxes (c : Component) (r other : Resolution) : Prop where
  side : ∀ name ∈ boxNames, ∀ side, other.side name side = r.side name side
  boxWidths : ∀ context, BoxWidths.ofAttributes other context = BoxWidths.ofAttributes r context
  contentWidth : c.contentWidth other = c.contentWidth r

/-- A side of a box has the length of its own attribute or else the one that the rule gives to it,
and it makes no difference whether the lengths of a box are given in short or one by one. -/
theorem side_follows_tokens (c : Component) (defaults own : Table String) :
    (∀ name ∈ boxNames, ∀ side, (Resolution.resolve c defaults own).HasSide name side) ∧
      ∀ defaults' own', c.RestatesAll defaults defaults' → c.RestatesAll own own' →
        Resolution.SameBoxes c (.resolve c defaults own) (.resolve c defaults' own') :=
  ⟨fun _ box side => Resolution.hasSide c defaults own box side,
    fun _ _ ofDefaults ofOwn =>
      { side := fun _ box side => Resolution.side_restated ofDefaults ofOwn box side
        boxWidths := Resolution.boxWidths_restated ofDefaults ofOwn
        contentWidth := Resolution.contentWidth_restated ofDefaults ofOwn }⟩

/-- Three lengths of the node's own and two of its defaults are spelled out. The attribute of the
left side cannot be read, so it does not win. -/
theorem side_follows_tokens_three :
    let own : Table String := .ofList [("inner-padding", "1px\t2px 0"), ("padding-left", "wide")]
    let defaults : Table String := .ofList [("padding", "10px 5%")]
    let own' := own.insert "inner-padding" "1px 2px 0 2px"
    let defaults' := defaults.insert "padding" "10px 5% 10px 5%"
    let r := Resolution.resolve .badge defaults own
    let restated := Resolution.resolve .badge defaults' own'
    Component.badge.RestatesAll defaults defaults' ∧ Component.badge.RestatesAll own own' ∧
      (r.side "inner-padding" .left == 2) = true ∧ (r.side "padding" .left == 5) = true ∧
      r.HasSide "padding" .left ∧ Resolution.SameBoxes .badge r restated := by
  intro own defaults own' defaults' r restated
  have box : Component.badge.typeOf? "inner-padding" = some (.shorthand Component.pxOrPercent) ∧
      Component.badge.typeOf? "padding" = some (.shorthand Component.pxOrPercent) := by decide
  have inner : Component.badge.Restates "inner-padding" "1px\t2px 0" "1px 2px 0 2px" :=
    Component.restates_joined (by decide) box.1 (by decide +kernel)
      (show _ = some ⟨"1px", "2px", "0", "2px"⟩ by decide)
  have outer : Component.badge.Restates "padding" "10px 5%" "10px 5% 10px 5%" :=
    Component.restates_joined (by decide) box.2 (by decide +kernel)
      (show _ = some ⟨"10px", "5%", "10px", "5%"⟩ by decide)
  have ofOwn : Component.badge.RestatesAll own own' := .insert (by decide) inner
  have ofDefaults : Component.badge.RestatesAll defaults defaults' := .insert (by decide) outer
  obtain ⟨sides, restates⟩ := side_follows_tokens .badge defaults own
  exact ⟨ofDefaults, ofOwn, by decide +kernel, by decide +kernel,
    sides "padding" (by decide) .left, restates defaults' own' ofDefaults ofOwn⟩

end MailMarkup
