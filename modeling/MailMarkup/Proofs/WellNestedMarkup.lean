import MailMarkup.Proofs.DiagnosticOrder
import MailMarkup.Proofs.TemplateNesting

/-!
# Compiled markup is well nested for every client

As long as no comment starts or ends in a text that is put in, and content is well nested itself,
what Outlook reads of the compiled markup is well nested and so is what any other client reads. Tags
that stand in one conditional section and are closed in another are seen by the same clients.
-/
namespace MailMarkup
open Markup

def Table.IsUncommented (t : Table String) : Prop := ∀ e ∈ t.entries, MailMarkup.IsUncommented e.2

instance (t : Table String) : Decidable t.IsUncommented :=
  inferInstanceAs (Decidable (∀ e ∈ t.entries, MailMarkup.IsUncommented e.2))

structure Defaults.IsUncommented (d : Defaults) : Prop where
  all : d.all.IsUncommented
  tags : ∀ e ∈ d.tags.entries, e.2.IsUncommented
  classes : ∀ e ∈ d.classes.entries, e.2.IsUncommented

structure Node.IsUncommented (n : Node) : Prop where
  attributes : n.attributes.IsUncommented
  content : MailMarkup.IsUncommented n.content

private theorem Table.mem_of_get? {α : Type} {t : Table α} {name : String} {a : α}
    (found : t.get? name = some a) : (name, a) ∈ t.entries := by
  obtain ⟨before, after, split, -⟩ := List.lookup_eq_some_iff.mp found
  rw [split]
  exact List.mem_append_right before List.mem_cons_self

namespace Defaults

private theorem isUncommented_layer {layers : Table (Table String)}
    (each : ∀ e ∈ layers.entries, e.2.IsUncommented) (name : String) :
    (layer layers name).IsUncommented := by
  rw [layer]
  cases found : layers.get? name with
  | none => exact List.forall_mem_nil _
  | some t => exact each _ (Table.mem_of_get? found)

/-- The text of an attribute comes from one of the layers of the settings and the head. -/
theorem isUncommented_forNode {config head : Defaults} (settings : config.IsUncommented)
    (ofHead : head.IsUncommented) (tag : String) (classes : List String) (name : String) :
    ∀ text ∈ ((config.merge head).forNode tag classes).get? name,
      MailMarkup.IsUncommented text := by
  have layers : ∀ t ∈ stack config head tag classes, t.IsUncommented := by
    simp only [stack, List.forall_mem_append, List.forall_mem_flatMap, List.forall_mem_cons,
      List.not_mem_nil, IsEmpty.forall_iff, implies_true, and_true]
    exact ⟨fun c _ =>
        ⟨isUncommented_layer ofHead.classes c, isUncommented_layer settings.classes c⟩,
      isUncommented_layer ofHead.tags tag, isUncommented_layer settings.tags tag, ofHead.all,
      settings.all⟩
  intro text isSet
  rw [get?_forNode_merge] at isSet
  obtain ⟨t, member, found⟩ := List.exists_of_findSome?_eq_some isSet
  exact layers t member _ (Table.mem_of_get? found)

end Defaults

section Visit

variable {s : Setup} {client : Client}

/-- What is written of a node is well nested if it is so of its children, and remains so when a
parent wraps it. -/
theorem nests_visit (templates : s.renderer = Template.standard)
    (defaults : ∀ tag classes name, ∀ text ∈ (s.defaults.forNode tag classes).get? name,
      IsUncommented text)
    {n : Node} {context : Context} {r : Rendered} (uncommented : ∀ m ∈ n.preorder, m.IsUncommented)
    (nested : ∀ m ∈ n.preorder, m.tag ≠ "mj-body" → IsWellNested m.content.toList)
    (succeeds : (visit s context n).outcome = .ok r) :
    client.Nests r.html ∧
      ∀ unclosed, client.Carries (r.wrapped.toList ++ ['\n']) unclosed unclosed := by
  induction n using Node.childInduction generalizing context r with
  | step n ih =>
    obtain ⟨c, rendered, visited⟩ := visited_of_ok succeeds
    rw [n.preorder_eq, List.forall_mem_cons] at uncommented nested
    have calm : (s.bundle context c n).IsCalm :=
      Bundle.isCalm_ofNode (defaults c.tag n.classes)
        (fun name text found => uncommented.1.attributes _ (Table.mem_of_get? found)) context
    have inside : ∀ r ∈ rendered, ∀ unclosed,
        client.Carries (r.wrapped.toList ++ ['\n']) unclosed unclosed := by
      refine FirstFailure.forall_of_mapM_ok (fun child member r succeeds => ?_) visited.children
      have part : child.preorder ⊆ n.children.flatMap Node.preorder :=
        fun m inPart => List.mem_flatMap.mpr ⟨child, member, inPart⟩
      exact (ih child member (fun m inPart => uncommented.2 m (part inPart))
        (fun m inPart => nested.2 m (part inPart)) succeeds).2
    have written : r.html = html (Template.pieces (s.bundle context c n) rendered) := by
      have answer := visited.answer
      rw [templates] at answer
      exact (Except.ok.inj answer).symm
    have tag := Component.ofTag?_eq_some_iff.mp visited.known
    have nests : client.Nests r.html := by
      rw [written]
      cases c with
      | body => exact nests_body calm inside
      | badge =>
        have other : n.tag ≠ "mj-body" := by
          rw [tag]
          decide
        exact nests_badge calm uncommented.1.content (nested.1 other)
      | raw =>
        have copied : html (Template.pieces (s.bundle context .raw n) rendered) = n.content :=
          html_text n.content
        have other : n.tag ≠ "mj-body" := by
          rw [tag]
          decide
        rw [copied]
        exact .of_content (nested.1 other) uncommented.1.content.isCalm
    refine ⟨nests, fun unclosed => carries_around ?_ nests.within⟩
    rw [visited.bundle]
    exact Outlook.isCalm_attributes calm.texts c context

end Visit

/-- No comment starts or ends in a text that can come into the markup. -/
structure Document.IsUncommented (d : Document) (config : Config) : Prop where
  settings : config.defaults.IsUncommented
  head : d.head.defaults.IsUncommented
  nodes : ∀ n ∈ d.body.preorder, n.IsUncommented

/-- Outlook and all other clients read well nested markup, if the content of the blocks is well
nested and no comment starts or ends in content, attributes and defaults. -/
theorem compile_isWellNested (d : Document) (config : Config) (out : Output)
    (compiled : compile d config = .ok out) (uncommented : d.IsUncommented config)
    (nested : ∀ n ∈ d.body.preorder, n.tag ≠ "mj-body" → IsWellNested n.content.toList)
    (client : Client) : IsWellNested (client.reads out.html) := by
  obtain ⟨root, visited, rfl⟩ := FirstFailure.map_eq_ok_iff.mp compiled
  have defaults := Defaults.isUncommented_forNode uncommented.settings uncommented.head
  have nests : client.Nests root.html :=
    (nests_visit (s := setup Template.standard d config) rfl defaults uncommented.nodes nested
      visited).1
  exact nests.alone

/-- Values may hold tags and quotes, and a class may end in the start of a comment. The row around
the badge and the tables around the column are there for Outlook alone. -/
theorem compile_isWellNested_marked :
    let badge : Node :=
      { tag := "mj-badge"
        attributes := .ofList
          [("css-class", "<!- x"), ("href", "?a<b>"), ("img", "a.png"), ("name", "\"</td>\"")]
        content := " <b class=\">\">1 < 2</b>\n" }
    let rule : Node := { tag := "mj-raw", content := "<hr>-<" }
    let d : Document :=
      { head := { defaults := { all := .ofList [("font-family", "\"Open Sans\", serif")] } }
        body := ⟨"mj-body", .ofList [("full-width", "full-width")], "", [badge, rule, badge]⟩ }
    d.IsUncommented {} ∧
      (∀ n ∈ d.body.preorder, n.tag ≠ "mj-body" → IsWellNested n.content.toList) ∧
      ∃ out, compile d {} = .ok out ∧ IsWellNested (Client.outlook.reads out.html) ∧
        IsWellNested (Client.other.reads out.html) := by
  intro badge rule d
  have members : d.body.preorder = [d.body, badge, rule, badge] := rfl
  have uncommented : d.IsUncommented {} := by
    have isBody : d.body.IsUncommented := ⟨by decide +kernel, by decide +kernel⟩
    have isBadge : badge.IsUncommented := ⟨by decide +kernel, by decide +kernel⟩
    have isRule : rule.IsUncommented := ⟨by decide +kernel, by decide +kernel⟩
    refine ⟨⟨by decide +kernel, by decide, by decide⟩,
      ⟨by decide +kernel, by decide, by decide⟩, ?_⟩
    simp [members, isBody, isBadge, isRule]
  have nested : ∀ n ∈ d.body.preorder, n.tag ≠ "mj-body" → IsWellNested n.content.toList := by
    have ofBadge : IsWellNested badge.content.toList := by decide +kernel
    have ofRule : IsWellNested rule.content.toList := by decide +kernel
    rw [members]
    simp [ofBadge, ofRule, d]
  have legal : ∀ n ∈ d.body.children, n.outline.IsBlock := by
    simp [d, rule, badge, Outline.IsBlock]
  obtain ⟨out, compiled⟩ := compile_withBlocks (d := d) rfl {} legal
  have reads := compile_isWellNested d {} out compiled uncommented nested
  exact ⟨uncommented, nested, out, compiled, reads .outlook, reads .other⟩

end MailMarkup
