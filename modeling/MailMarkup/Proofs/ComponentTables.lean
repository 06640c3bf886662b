import MailMarkup.Attribute.Value
import MailMarkup.Component
import MailMarkup.Proofs.BlankTrimming
import MailMarkup.Proofs.TableLookup

/-!
# The tables of the components

What the tables of the three components hold: a tag belongs to one component, only the body takes
blocks, a component declares a name once, and every default of a schema can be read at the type of
its attribute.
-/
namespace MailMarkup.Component

theorem ofTag?_eq_some_iff {tag : String} {c : Component} :
    ofTag? tag = some c ↔ tag = c.tag := by
  constructor
  · intro known
    have same := List.find?_some known
    exact (beq_iff_eq.mp same).symm
  · rintro rfl
    cases c <;> decide

theorem acceptsChild_iff (c child : Component) :
    c.acceptsChild child = true ↔ c = .body ∧ child ≠ .body := by
  simp [acceptsChild, acceptsChildren]

/-- The declared type of an attribute. -/
def typeOf? (c : Component) (name : String) : Option AttributeType :=
  (c.schema.typeOf? name).or (Schema.shared.typeOf? name)

theorem lookup_declared (c : Component) (name : String) :
    c.declared.lookup name = c.typeOf? name := List.lookup_append

theorem typeOf?_isNone (c : Component) (name : String) :
    (c.typeOf? name).isNone = (!c.schema.declares name && !Schema.shared.declares name) := by
  unfold typeOf? Schema.declares
  cases c.schema.typeOf? name <;> simp

/-- No name stands twice among the attributes of a component and the shared ones. -/
theorem nodup_declared (c : Component) : (c.declared.map Prod.fst).Nodup := by
  cases c <;> decide

theorem typeOf?_of_mem {c : Component} {name : String} {type : AttributeType}
    (member : (name, type) ∈ c.declared) : c.typeOf? name = some type := by
  rw [← lookup_declared]
  exact Table.lookup_of_mem c.nodup_declared member

/-- The defaults of the schemas pass their own check. -/
theorem default_isRead (c : Component) : ∀ e ∈ c.schema.defaults,
    ((c.typeOf? e.1).bind fun type => Value.read? type (Text.trimmed e.2)).isSome := by
  cases c <;> decide +kernel

theorem default_not_blank (c : Component) : ∀ e ∈ c.schema.defaults,
    Text.isBlankText e.2 = false := by
  cases c <;> decide

end MailMarkup.Component
