import MailMarkup.Document.Markup
import MailMarkup.Proofs.DefaultLayers

/-!
# Merging defaults

A merge is settled layer by layer and attribute by attribute. It does not matter how several merges
are grouped, nor how often defaults are merged on top of themselves. Reading a block of defaults
merges what its entries say, so the entries of two blocks, put into one, make the merge of the two. A
merge says no more than the upper defaults do exactly if these have all that the lower ones have.
-/
namespace MailMarkup

namespace Table

variable {α : Type}

/-- Each name in the one table is also in the other. -/
def IsWithin (t u : Table α) : Prop := ∀ name, u.get? name = none → t.get? name = none

private theorem overlay_eq_right_iff {t u : Table α} : t.overlay u = u ↔ t.IsWithin u := by
  constructor
  · intro same name absent
    have found : (t.overlay u).get? name = u.get? name := by rw [same]
    rwa [get?_overlay, absent, Option.none_or] at found
  · intro within
    refine ext_get? fun name => ?_
    rw [get?_overlay]
    cases found : u.get? name with
    | none => rw [within name found, Option.none_or]
    | some value => rfl

end Table

namespace Defaults

theorem ext {d e : Defaults} (all : d.all = e.all) (tags : d.tags = e.tags)
    (classes : d.classes = e.classes) : d = e := by
  cases d
  cases e
  cases all
  cases tags
  cases classes
  rfl

section Layers

variable (layers upper : Table (Table String))

theorem extendAll_extend (name : String) (attributes : Table String) :
    extendAll layers (extend upper name attributes) =
      extend (extendAll layers upper) name attributes := by
  refine Table.ext_get? fun other => ?_
  rw [get?_extendAll, get?_extend, get?_extend, layer_extendAll, get?_extendAll]
  by_cases same : other = name
  · subst same
    rw [if_pos rfl, if_pos rfl, Table.overlay_assoc]
    rfl
  · rw [if_neg same, if_neg same]

@[simp] theorem empty_extendAll : extendAll .empty upper = upper := by
  refine Table.ext_get? fun name => ?_
  rw [get?_extendAll, Table.get?_empty, Option.or_none]
  have same : (layer .empty name).overlay = id := funext Table.empty_overlay
  rw [same, Option.map_id, id]

theorem extendAll_assoc (top : Table (Table String)) :
    extendAll (extendAll layers upper) top = extendAll layers (extendAll upper top) := by
  refine Table.ext_get? fun name => ?_
  rw [get?_extendAll, get?_extendAll, get?_extendAll, get?_extendAll, layer_extendAll]
  cases top.get? name with
  | none => rfl
  | some attributes =>
    rw [Option.map_some, Option.some_or, Option.map_some, Option.some_or, Option.map_some,
      Option.some_or, Table.overlay_assoc]

/-- Each layer has a layer of its name above it that has all its attributes. -/
structure AreWithin (lower upper : Table (Table String)) : Prop where
  names : lower.IsWithin upper
  attributes : ∀ name, (layer lower name).IsWithin (layer upper name)

theorem AreWithin.refl : AreWithin layers layers :=
  ⟨fun _ absent => absent, fun _ _ absent => absent⟩

private theorem extendAll_eq_right_iff {lower upper : Table (Table String)} :
    extendAll lower upper = upper ↔ AreWithin lower upper := by
  constructor
  · intro same
    constructor
    · intro name absent
      have found : (extendAll lower upper).get? name = upper.get? name := by rw [same]
      rwa [get?_extendAll, absent, Option.map_none, Option.none_or] at found
    · intro name
      rw [← Table.overlay_eq_right_iff, ← layer_extendAll, same]
  · intro within
    refine Table.ext_get? fun name => ?_
    rw [get?_extendAll]
    cases found : upper.get? name with
    | none => rw [within.names name found, Option.map_none, Option.none_or]
    | some attributes =>
      have here : layer upper name = attributes := by rw [layer, found, Option.getD_some]
      have covered := Table.overlay_eq_right_iff.mpr (within.attributes name)
      rw [here] at covered
      rw [Option.map_some, covered, Option.some_or]

end Layers

@[simp] theorem merge_empty (d : Defaults) : d.merge .empty = d := rfl

@[simp] theorem empty_merge (d : Defaults) : empty.merge d = d :=
  ext (Table.empty_overlay d.all) (empty_extendAll d.tags) (empty_extendAll d.classes)

/-- All that the lower defaults have for an attribute, the upper ones have something for, too. -/
structure IsCoveredBy (lower upper : Defaults) : Prop where
  all : lower.all.IsWithin upper.all
  tags : AreWithin lower.tags upper.tags
  classes : AreWithin lower.classes upper.classes

theorem merge_eq_right_iff {lower upper : Defaults} :
    lower.merge upper = upper ↔ lower.IsCoveredBy upper := by
  constructor
  · intro same
    exact ⟨Table.overlay_eq_right_iff.mp (congrArg all same),
      extendAll_eq_right_iff.mp (congrArg tags same),
      extendAll_eq_right_iff.mp (congrArg classes same)⟩
  · intro covered
    exact ext (Table.overlay_eq_right_iff.mpr covered.all)
      (extendAll_eq_right_iff.mpr covered.tags) (extendAll_eq_right_iff.mpr covered.classes)

@[simp] theorem merge_self (d : Defaults) : d.merge d = d :=
  merge_eq_right_iff.mpr ⟨fun _ absent => absent, .refl d.tags, .refl d.classes⟩

theorem merge_assoc (d upper top : Defaults) :
    (d.merge upper).merge top = d.merge (upper.merge top) :=
  ext (Table.overlay_assoc ..) (extendAll_assoc ..) (extendAll_assoc ..)

/-- Layering is associative and idempotent, with the empty defaults as its identity, so that a set
of defaults that lies on top adds nothing a second time. -/
theorem merge_isBand (a b c : Defaults) :
    (a.merge b).merge c = a.merge (b.merge c) ∧ empty.merge a = a ∧ a.merge empty = a ∧
      a.merge a = a ∧ (a.merge b).merge b = a.merge b := by
  refine ⟨merge_assoc a b c, empty_merge a, merge_empty a, merge_self a, ?_⟩
  rw [merge_assoc, merge_self]

-- A layer without attributes is a layer all the same.
example : empty.merge { tags := .ofList [("mj-raw", .empty)] } =
    { tags := .ofList [("mj-raw", .empty)] } := by decide

/-- An entry is added to a merge by adding it to what was merged last. -/
theorem addElement_merge (d upper : Defaults) (e : Element) :
    (d.merge upper).addElement e = (upper.addElement e).map d.merge := by
  unfold addElement
  split
  · exact congrArg Except.ok (ext (Table.overlay_assoc ..) rfl rfl)
  · split
    · split
      · exact congrArg Except.ok (ext rfl rfl (extendAll_extend ..).symm)
      · rfl
    · split
      · exact congrArg Except.ok (ext rfl (extendAll_extend ..).symm rfl)
      · rfl

private theorem foldlM_addElement_merge (d upper : Defaults) (es : List Element) :
    es.foldlM addElement (d.merge upper) = (es.foldlM addElement upper).map d.merge := by
  induction es generalizing upper with
  | nil => rfl
  | cons e rest ih =>
    rw [List.foldlM_cons, List.foldlM_cons, addElement_merge]
    cases upper.addElement e with
    | error p => rfl
    | ok next => exact ih next

/-- Entries put behind others are merged into what these say. -/
theorem ofElements_append (es others : List Element) :
    ofElements (es ++ others) =
      (ofElements es).bind fun lower => (ofElements others).map lower.merge := by
  have behind (lower : Defaults) :
      others.foldlM addElement lower = (ofElements others).map lower.merge :=
    foldlM_addElement_merge lower .empty others
  rw [ofElements, List.foldlM_append]
  simp only [behind]
  rfl

end Defaults

end MailMarkup
