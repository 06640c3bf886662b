import MailMarkup.Attribute.Value
import MailMarkup.Component
import MailMarkup.Log
import MailMarkup.Table

/-!
# Resolution

The attributes of one node. For each declared attribute the first text that is not blank, among
the node's own, the default of the layers and the default of the schema, is read at its type. A
text that cannot be read leaves the attribute unset; an attribute that is not declared is dropped.
Each step leaves a finding, from which diagnostics and log lines are drawn.
-/
namespace MailMarkup
open Text

structure Setting where
  raw : String
  value : Value

inductive Finding where
  | unknown (component name : String)
  | accepted (name picked : String) (value : Value)
  | rejected (problem : Problem)

namespace Finding

def setting? : Finding → Option (String × Setting)
  | .accepted name picked value => some (name, ⟨trimmed picked, value⟩)
  | _ => none

def problem? : Finding → Option Problem
  | .unknown component name => some (.unknownAttribute component name)
  | .accepted .. => none
  | .rejected problem => some problem

def line (tag : String) : Finding → Log.Line
  | .unknown _ name => ⟨.warn, "<" ++ tag ++ ">: unknown attribute '" ++ name ++ "' dropped"⟩
  | .accepted name picked _ =>
    ⟨.trace, "<" ++ tag ++ ">: " ++ name ++ "=\"" ++ picked ++ "\""⟩
  | .rejected problem =>
    ⟨.warn, "<" ++ tag ++ ">: " ++ problem.message ++ "; attribute left unset"⟩

end Finding

def nonblank (s : Option String) : Option String := s.filter (!isBlankText ·)

/-- The text that counts for an attribute. -/
def pick? (schema : Schema) (defaults own : Table String) (name : String) : Option String :=
  (nonblank (own.get? name)).or ((nonblank (defaults.get? name)).or (schema.defaultOf? name))

def judge (name picked : String) (type : AttributeType) : Finding :=
  match Value.ofRaw name picked type with
  | .ok value => .accepted name picked value
  | .error problem => .rejected problem

structure Resolution where
  settings : Table Setting
  findings : List Finding

namespace Resolution

def unknownFindings (c : Component) (own : Table String) : List Finding :=
  (own.keys.filter fun name => !c.schema.declares name && !Schema.shared.declares name).map
    (.unknown c.tag)

def declaredFindings (c : Component) (defaults own : Table String) : List Finding :=
  c.declared.filterMap fun (name, type) =>
    (pick? c.schema defaults own name).map fun picked => judge name picked type

def ofFindings (findings : List Finding) : Resolution where
  settings := .ofList (findings.filterMap Finding.setting?)
  findings := findings

/-- The attributes of a node of the component, from the defaults of the layers and its own. -/
def resolve (c : Component) (defaults own : Table String) : Resolution :=
  ofFindings (unknownFindings c own ++ declaredFindings c defaults own)

def value? (r : Resolution) (name : String) : Option Value := (r.settings.get? name).map (·.value)

/-- The text of a set attribute, without blanks around it. -/
def raw? (r : Resolution) (name : String) : Option String := (r.settings.get? name).map (·.raw)

def diagnostics (r : Resolution) : List Problem := r.findings.filterMap Finding.problem?

def lines (r : Resolution) (tag : String) : List Log.Line := r.findings.map (Finding.line tag)

/-- The number on one side of a box attribute such as `padding`. The attribute of that side wins
over the shorthand, and the unit does not count. -/
def side (r : Resolution) (name : String) (side : Side) : Float :=
  match r.value? (name ++ "-" ++ side.name) with
  | some (.length l) => l.value
  | _ =>
    match r.value? name with
    | some (.shorthand lengths) => (sideOf lengths side).value
    | some (.length l) => l.value
    | _ => 0

end Resolution
end MailMarkup
