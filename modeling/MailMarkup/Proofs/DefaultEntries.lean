import MailMarkup.Proofs.DefaultMerging
import MailMarkup.Proofs.FirstFailure

/-!
# The entries of a block of defaults

Each entry of a block adds to one layer of the defaults: to the one for all nodes, to the one of a
component or to the one of a class. What the entries of a layer say accumulates, and of two that have
the same attribute the later one counts. So a block can be read in parts, whose defaults are merged,
and the first entry that cannot be read is the one reported.
-/
namespace MailMarkup
open FirstFailure

namespace Defaults

/-- A layer of defaults. -/
inductive Place where
  | all
  | ofTag (tag : String)
  | ofClass (name : String)
  deriving DecidableEq

def layerAt? (d : Defaults) : Place → Option (Table String)
  | .all => some d.all
  | .ofTag tag => d.tags.get? tag
  | .ofClass name => d.classes.get? name

def textsAt (d : Defaults) (p : Place) : Table String := (d.layerAt? p).getD .empty

def add (d : Defaults) (t : Table String) : Place → Defaults
  | .all => { d with all := d.all.overlay t }
  | .ofTag tag => { d with tags := extend d.tags tag t }
  | .ofClass name => { d with classes := extend d.classes name t }

private theorem layerAt?_add (d : Defaults) (t : Table String) (p other : Place) :
    (d.add t p).layerAt? other =
      if other = p then some ((d.textsAt p).overlay t) else d.layerAt? other := by
  cases p <;> cases other <;> simp [add, layerAt?, textsAt, get?_extend, layer]

private theorem textsAt_add (d : Defaults) (t : Table String) (p other : Place) :
    (d.add t p).textsAt other =
      if other = p then (d.textsAt p).overlay t else d.textsAt other := by
  rw [textsAt, layerAt?_add]
  split <;> rfl

end Defaults

namespace Element
open Defaults

/-- The layer that an entry adds to. -/
def place (e : Element) : Except Problem Place :=
  if e.tag = "mj-all" then .ok .all
  else if e.tag = "mj-class" then
    match e.attributes.get? "name" with
    | some name => .ok (.ofClass name)
    | none => .error .namelessClass
  else if (Component.ofTag? e.tag).isSome then .ok (.ofTag e.tag)
  else .error (.strayInAttributes e.tag)

/-- What an entry says, without the name of its class. -/
def given (e : Element) : Table String :=
  if e.tag = "mj-class" then e.attributes.erase "name" else e.attributes

def addsTo (e : Element) (p : Place) : Bool := e.place.toOption == some p

private theorem addsTo_of_place {e : Element} {p : Place} (here : e.place = .ok p) (other : Place) :
    e.addsTo other = decide (other = p) := by
  rw [addsTo, here, Bool.eq_iff_iff, beq_iff_eq, decide_eq_true_iff]
  exact ⟨fun same => (Option.some.inj same).symm, fun same => congrArg some same.symm⟩

private theorem given_nameless {e : Element} {name : String} (h : e.addsTo (.ofClass name) = true) :
    e.given.get? "name" = none := by
  have here := toOption_eq_some_iff.mp (beq_iff_eq.mp h)
  unfold place at here
  split at here
  · cases here
  · split at here
    · next isClass => rw [given, if_pos isClass, Table.get?_erase, if_pos rfl]
    · split at here <;> cases here

end Element

namespace Defaults

private theorem addElement_eq (d : Defaults) (e : Element) :
    d.addElement e = e.place.map (d.add e.given) := by
  unfold addElement Element.place Element.given
  split
  · next all =>
    rw [all]
    rfl
  · split
    · cases e.attributes.get? "name" <;> rfl
    · split <;> rfl

/-- The defaults are what the entries say, layer by layer. -/
structure Accumulates (es : List Element) (d : Defaults) : Prop where
  /-- A layer comes to exist with the first entry that adds to it, even if it adds no attributes. -/
  exists_iff : ∀ p, (d.layerAt? p).isSome = true ↔ p = .all ∨ ∃ e ∈ es, e.addsTo p = true
  /-- The last entry of the layer that has the attribute counts. -/
  get?_textsAt : ∀ p name, (d.textsAt p).get? name =
    firstText? ((es.filter (·.addsTo p)).reverse.map Element.given) name
  /-- The name of a class is no default. -/
  nameless : ∀ name, (d.textsAt (.ofClass name)).get? "name" = none

namespace Accumulates

theorem nil : Accumulates [] .empty where
  exists_iff p := by cases p <;> simp [layerAt?, Defaults.empty]
  get?_textsAt p name := by cases p <;> rfl
  nameless name := rfl

/-- One more entry goes on top of its layer and leaves the others as they are. -/
theorem add {es : List Element} {d : Defaults} {e : Element} {p : Place} (h : Accumulates es d)
    (here : e.place = .ok p) : Accumulates (es ++ [e]) (d.add e.given p) where
  exists_iff other := by
    rw [layerAt?_add]
    by_cases same : other = p
    · simp [same, Element.addsTo_of_place here]
    · simp [same, Element.addsTo_of_place here, h.exists_iff other, or_and_right, exists_or]
  get?_textsAt other name := by
    have added := Element.addsTo_of_place here other
    rw [textsAt_add, List.filter_append]
    by_cases same : other = p
    · subst same
      rw [if_pos rfl, Table.get?_overlay, h.get?_textsAt]
      simp [added]
    · rw [if_neg same, h.get?_textsAt]
      simp [added, same]
  nameless name := by
    rw [textsAt_add]
    split
    · next same =>
      subst same
      have added : e.addsTo (.ofClass name) = true := by
        rw [Element.addsTo_of_place here, decide_eq_true rfl]
      rw [Table.get?_overlay, Element.given_nameless added, h.nameless name]
      rfl
    · exact h.nameless name

end Accumulates

private theorem accumulates_of_ofElements {es : List Element} {d : Defaults}
    (read : ofElements es = .ok d) : Accumulates es d := by
  refine foldlM_follows (fun before d e next follows added => ?_) [] .nil read
  rw [addElement_eq] at added
  obtain ⟨p, here, rfl⟩ := map_eq_ok_iff.mp added
  exact follows.add here

/-- To read entries in two parts is to merge what the parts say, and the first problem counts. What
the entries of a layer say accumulates. -/
theorem ofElements_isHomomorphism (es others : List Element) :
    (∀ p, ofElements es = .error p → ofElements (es ++ others) = .error p) ∧
      ∀ lower, ofElements es = .ok lower → Accumulates es lower ∧
        (∀ p, ofElements others = .error p → ofElements (es ++ others) = .error p) ∧
        ∀ upper, ofElements others = .ok upper →
          ofElements (es ++ others) = .ok (lower.merge upper) := by
  refine ⟨fun p failed => ?_, fun lower read => ⟨accumulates_of_ofElements read, ?_, ?_⟩⟩
  · rw [ofElements_append, failed]
    rfl
  · intro p failed
    rw [ofElements_append, read, failed]
    rfl
  · intro upper readOthers
    rw [ofElements_append, read, readOthers]
    rfl

/-- The later entry of a class counts, and of two strays behind the entries the first is reported. -/
theorem ofElements_isHomomorphism_classes :
    let es : List Element := [⟨"mj-class", .ofList [("color", "red"), ("name", "loud")], []⟩,
      ⟨"mj-all", .ofList [("align", "left")], []⟩]
    let others : List Element := [⟨"mj-raw", .empty, []⟩,
      ⟨"mj-class", .ofList [("color", "navy"), ("name", "loud"), ("rel", "me")], []⟩]
    let strays : List Element := [⟨"mj-class", .empty, []⟩, ⟨"mj-style", .empty, []⟩]
    let lower : Defaults := { all := .ofList [("align", "left")]
                              classes := .ofList [("loud", .ofList [("color", "red")])] }
    let upper : Defaults :=
      { tags := .ofList [("mj-raw", .empty)]
        classes := .ofList [("loud", .ofList [("color", "navy"), ("rel", "me")])] }
    ofElements es = .ok lower ∧ Accumulates es lower ∧ ofElements others = .ok upper ∧
      ofElements (es ++ others) = .ok (lower.merge upper) ∧
      (lower.merge upper).classes = upper.classes ∧ ofElements strays = .error .namelessClass ∧
      ofElements (es ++ strays) = .error .namelessClass ∧
      ofElements (strays ++ es) = .error .namelessClass := by
  intro es others strays lower upper
  have read : ofElements es = .ok lower := rfl
  have readOthers : ofElements others = .ok upper := rfl
  have failed : ofElements strays = .error .namelessClass := rfl
  obtain ⟨accumulates, -, merged⟩ := (ofElements_isHomomorphism es others).2 lower read
  obtain ⟨-, failedBehind, -⟩ := (ofElements_isHomomorphism es strays).2 lower read
  exact ⟨read, accumulates, readOthers, merged upper readOthers, by decide, failed,
    failedBehind _ failed, (ofElements_isHomomorphism strays es).1 _ failed⟩

end Defaults

end MailMarkup
