import MailMarkup.Table

/-!
# Data trees

What a structured text holds: numbers, texts, lists, and records of named fields. A record may
also be given as the list of its fields in order, and a choice as a record of one empty field.
-/
namespace MailMarkup

inductive Datum where
  | null
  | bool (b : Bool)
  | number (x : Float)
  | text (s : String)
  | list (items : List Datum)
  | record (fields : List (String × Datum))
  deriving Inhabited

namespace Datum

def text? : Datum → Option String
  | .text s => some s
  | _ => none

/-- A text that may be left out. -/
def optionalText? : Datum → Option (Option String)
  | .null => some none
  | d => d.text?.map some

def number? : Datum → Option Float
  | .number x => some x
  | _ => none

/-- The name of a choice. -/
def choice? : Datum → Option String
  | .record [(name, .null)] => some name
  | d => d.text?

/-- The fields whose names are among `names`, none of which may come twice. -/
def select? (names : List String) : List (String × Datum) → Option (List (String × Datum))
  | [] => some []
  | (name, value) :: rest => do
    let others ← select? names rest
    if !names.contains name then some others
    else if (others.lookup name).isSome then none
    else some ((name, value) :: others)

/-- The fields of a record. In order, the first `least` of them must be there. -/
def fields? (names : List String) (least : Nat) : Datum → Option (List (String × Datum))
  | .list items =>
    if least ≤ items.length ∧ items.length ≤ names.length then some (names.zip items) else none
  | .record fields => select? names fields
  | _ => none

/-- The field of a name, read by `read?`; what is not there has its default. -/
def field? {α : Type} (fields : List (String × Datum)) (name : String) (default : α)
    (read? : Datum → Option α) : Option α :=
  match fields.lookup name with
  | none => some default
  | some d => read? d

/-- A table, in which a later entry of a name replaces an earlier one. -/
def table? {α : Type} (read? : Datum → Option α) : Datum → Option (Table α)
  | .record fields => (fields.mapM fun f => (read? f.2).map (f.1, ·)).map .ofList
  | _ => none

def ofTexts (t : Table String) : Datum := .record (t.entries.map fun e => (e.1, .text e.2))

end Datum
end MailMarkup
