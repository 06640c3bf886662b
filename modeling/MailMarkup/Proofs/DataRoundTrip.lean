import MailMarkup.Document.Data
import MailMarkup.Proofs.TableLookup
import MailMarkup.Proofs.TraversalSteps

/-!
# Documents survive being written

A document that is written as a data tree is read back as it was. What is left out when it is
written, a title or a preview that is not set, a content or children that are empty, is just what is
filled in when a field is missing, for a document, its head, its defaults and every node of its tree.
-/
namespace MailMarkup
open Datum

section Tables

variable {α : Type}

/-- A table is read back if its values are. -/
theorem table?_record {read? : Datum → Option α} {write : α → Datum}
    (values : ∀ a, read? (write a) = some a) (t : Table α) :
    table? read? (.record (t.entries.map fun e => (e.1, write e.2))) = some t := by
  have entries : (t.entries.map fun e => (e.1, write e.2)).mapM
      (fun f => (read? f.2).map (f.1, ·)) = some t.entries := by
    rw [List.mapM_map]
    simp only [Function.comp_def, values, Option.map_some]
    exact (List.mapM_pure (m := Option)).trans (congrArg some (List.map_id t.entries))
  rw [table?, entries, Option.map_some, Table.ofList_entries]

private theorem table?_ofTexts (t : Table String) : table? text? (ofTexts t) = some t :=
  table?_record (fun s => (rfl : text? (.text s) = some s)) t

end Tables

section Fields

variable {α : Type} {fields : List (String × Datum)}

@[simp] theorem field?_nil (name : String) (default : α) (read? : Datum → Option α) :
    field? [] name default read? = some default := rfl

@[simp] theorem field?_cons (key name : String) (value : Datum) (default : α)
    (read? : Datum → Option α) :
    field? ((key, value) :: fields) name default read? =
      if name = key then read? value else field? fields name default read? := by
  rw [field?, Table.lookup_entry]
  by_cases same : name = key
  · rw [if_pos same, if_pos same]
  · rw [if_neg same, if_neg same, field?]

end Fields

theorem Defaults.ofDatum?_toDatum (d : Defaults) : ofDatum? d.toDatum = some d := by
  have layers (t : Table (Table String)) := table?_record table?_ofTexts t
  simp [ofDatum?, toDatum, fields?, select?, table?_ofTexts, layers]

theorem Head.ofDatum?_toDatum (h : Head) : ofDatum? h.toDatum = some h := by
  obtain ⟨title, preview, defaults⟩ := h
  cases title <;> cases preview <;>
    simp [ofDatum?, toDatum, optionalField, fields?, select?, optionalText?, text?,
      Defaults.ofDatum?_toDatum]

namespace Node

theorem ofData?_toData {ns : List Node} (each : ∀ n ∈ ns, ofDatum? n.toDatum = some n) :
    ofData? (toData ns) = some ns := by
  induction ns with
  | nil => rw [toData, ofData?]
  | cons n rest ih =>
    obtain ⟨here, below⟩ := List.forall_mem_cons.mp each
    rw [toData, ofData?, here, ih below]
    rfl

/-- A node is read back with its whole tree. -/
theorem ofDatum?_toDatum (n : Node) : ofDatum? n.toDatum = some n := by
  induction n using childInduction with
  | step n ih =>
    obtain ⟨tag, attributes, content, children⟩ := n
    have below : ofData? (toData children) = some children := ofData?_toData ih
    cases children with
    | nil =>
      by_cases empty : content = "" <;>
        simp [toDatum, empty, ofDatum?, draft?, Draft.withTag, Draft.withAttributes,
          Draft.withContent, Draft.finish, table?_ofTexts, text?]
    | cons first rest =>
      rw [toData] at below
      by_cases empty : content = "" <;>
        simp [toDatum, empty, ofDatum?, draft?, children?, below, Draft.withTag,
          Draft.withAttributes, Draft.withContent, Draft.withChildren, Draft.finish,
          table?_ofTexts, text?]

end Node

namespace Document

theorem ofDatum?_toDatum (d : Document) : ofDatum? d.toDatum = some d := by
  have body : List.lookup "body" [("head", d.head.toDatum), ("body", d.body.toDatum)] =
      some d.body.toDatum := rfl
  simp [ofDatum?, toDatum, fields?, select?, body, Head.ofDatum?_toDatum, Node.ofDatum?_toDatum]

/-- A document is read back from what it is written as. Whatever data a document was read from,
writing it and reading it again changes nothing. -/
theorem ofDatum?_of_written :
    (∀ d : Document, ofDatum? d.toDatum = some d) ∧
      ∀ (x : Datum) (d : Document), ofDatum? x = some d → ofDatum? d.toDatum = some d :=
  ⟨ofDatum?_toDatum, fun _ d _ => ofDatum?_toDatum d⟩

/-- Fields given in order, fields that are missing, a title given as nothing and a field that no
document has: all of this is gone from what is written. -/
theorem ofDatum?_of_written_sparse :
    let x : Datum := .list
      [.record [("title", .null),
        ("attributes", .record [("all", .record [("color", .text "red")])])],
       .record [("tag", .text "mj-body"), ("note", .number 1), ("children", .list
         [.list [.text "mj-raw", .record [], .text "<hr/>"], .record [("tag", .text "mj-badge")]])]]
    ∃ d, ofDatum? x = some d ∧ ofDatum? d.toDatum = some d ∧ d.body.children.length = 2 := by
  intro x
  have read : (ofDatum? x).map (fun d => d.body.children.length) = some 2 := by decide +kernel
  obtain ⟨d, found, children⟩ := Option.map_eq_some_iff.mp read
  exact ⟨d, found, ofDatum?_of_written.2 x d found, children⟩

end Document

end MailMarkup
