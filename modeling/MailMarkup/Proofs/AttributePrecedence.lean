import MailMarkup.Proofs.BlankTrimming
import MailMarkup.Proofs.ComponentTables
import MailMarkup.Proofs.DefaultLayers
import MailMarkup.Proofs.TraversalSteps

/-!
# Which text counts for an attribute

A node's own text counts first, unless it is blank. After it comes the first of the layers that has
the attribute at all, settings and head laid into each other; if that text is blank, it still hides
the layers below it, and only the default of the schema is left. The layers are chosen by the node's
own classes. A visit judges these texts and no others, in the order of the schema.
-/
namespace MailMarkup

/-- The text that counts for an attribute of a node under the defaults of settings and head. -/
def textOf? (config head : Defaults) (c : Component) (n : Node) (name : String) : Option String :=
  (nonblank (n.attributes.get? name)).or
    ((nonblank (Defaults.firstText? (Defaults.stack config head c.tag n.classes) name)).or
      (c.schema.defaultOf? name))

private theorem pick?_forNode_merge (config head : Defaults) (c : Component) (n : Node)
    (name : String) :
    pick? c.schema ((config.merge head).forNode c.tag n.classes) n.attributes name =
      textOf? config head c n name := by
  rw [pick?, Defaults.get?_forNode_merge, textOf?]

/-- A node names no class unless its own attribute does, even if a layer has one for it. -/
theorem Node.classes_eq_nil {n : Node} (unnamed : nonblank (n.attributes.get? "mj-class") = none) :
    n.classes = [] := by
  unfold Node.classes
  cases own : n.attributes.get? "mj-class" with
  | none => rfl
  | some text =>
    rw [own, nonblank, Option.filter_eq_none_iff] at unnamed
    have blank : Text.isBlankText text = true := by simpa using unnamed text rfl
    rw [Option.map_some, Option.getD_some, Text.wordsOf_eq_nil_iff]
    exact blank

/-- The judgements of a visit, in order: each declared attribute at its type, with the text that
counts for it, and nothing for an attribute that no layer and no default has. -/
def judgements (config head : Defaults) (c : Component) (n : Node) : List Finding :=
  c.declared.filterMap fun (name, type) =>
    (textOf? config head c n name).map fun text => judge name text type

/-- The attributes of a visited node come from the judgements of the texts that count and from no
others, and they are the first thing a visit leaves, after the classes that no layer declares and
the attributes that no schema does. Without a class of its own a node has no layers of classes. -/
theorem visit_judges_texts (renderer : Renderer) (d : Document) (config : Config)
    (context : Context) (n : Node) (c : Component) (known : Component.ofTag? n.tag = some c) :
    ((setup renderer d config).bundle context c n).attributes =
      Resolution.ofFindings (Resolution.unknownFindings c n.attributes ++
        judgements config.defaults d.head.defaults c n) ∧
    (∃ later, (visit (setup renderer d config) context n).events =
      [.visiting c context.width] ++
        ((config.defaults.merge d.head.defaults).undeclared n.classes).map (.undeclared c.tag) ++
        (Resolution.unknownFindings c n.attributes).map (.found c.tag) ++
        (judgements config.defaults d.head.defaults c n).map (.found c.tag) ++ later) ∧
    (nonblank (n.attributes.get? "mj-class") = none →
      Defaults.stack config.defaults d.head.defaults c.tag n.classes =
        [d.head.defaults.ofTag c.tag, config.defaults.ofTag c.tag, d.head.defaults.all,
          config.defaults.all]) := by
  have attributes : ((setup renderer d config).bundle context c n).attributes =
      Resolution.ofFindings (Resolution.unknownFindings c n.attributes ++
        judgements config.defaults d.head.defaults c n) := by
    have same : Resolution.declaredFindings c
        ((config.defaults.merge d.head.defaults).forNode c.tag n.classes) n.attributes =
          judgements config.defaults d.head.defaults c n := by
      simp only [Resolution.declaredFindings, judgements, pick?_forNode_merge]
    rw [← same]
    rfl
  refine ⟨attributes, ?_, ?_⟩
  · obtain ⟨rest, events⟩ := opening_prefix_visit (setup renderer d config) context known
    rw [← events, Setup.opening, attributes]
    simp only [Resolution.ofFindings, List.map_append, List.append_assoc]
    exact ⟨_, rfl⟩
  · intro unnamed
    rw [Node.classes_eq_nil unnamed]
    rfl

/-- The blank text of the class named last hides the other class and what holds for all nodes. -/
theorem visit_judges_texts_hidden :
    let head : Defaults :=
      { all := .ofList [("css-class", "base"), ("mj-class", "loud")]
        classes := .ofList
          [("loud", .ofList [("css-class", "big")]), ("quiet", .ofList [("css-class", " ")])] }
    let plain : Node := { tag := "mj-raw" }
    let classed : Node := plain.withAttribute "mj-class" "loud quiet"
    (∃ later, (visit (setup Template.standard ⟨{ defaults := head }, classed⟩ {}) ⟨600, none⟩
      classed).events =
        [.visiting .raw 600, .found "mj-raw" (judge "mj-class" "loud quiet" .text)] ++ later) ∧
    Defaults.stack .empty head "mj-raw" plain.classes = [.empty, .empty, head.all, .empty] := by
  intro head plain classed
  constructor
  · obtain ⟨-, ⟨later, events⟩, -⟩ := visit_judges_texts Template.standard
      ⟨{ defaults := head }, classed⟩ {} ⟨600, none⟩ classed .raw rfl
    exact ⟨later, events⟩
  · exact (visit_judges_texts Template.standard ⟨{ defaults := head }, plain⟩ {} ⟨600, none⟩
      plain .raw rfl).2.2 rfl

end MailMarkup
