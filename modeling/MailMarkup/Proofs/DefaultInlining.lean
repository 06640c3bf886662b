import MailMarkup.Proofs.AnnouncedBackground
import MailMarkup.Proofs.DiagnosticOrder
import MailMarkup.Proofs.ResolvedTexts
import MailMarkup.Proofs.TemplateInputs

/-!
# Defaults can be written into the nodes

A document in which every node has its resolved texts as its own attributes needs no defaults: each
node is set to the same values as before, so the templates read the same and the same background is
announced. Of the diagnostics only those on boxes are left, because the unknown attributes are gone.
-/
namespace MailMarkup
open Markup

namespace Defaults

/-- The texts of the attributes that are set for a node under the defaults. -/
def textsOf (d : Defaults) (n : Node) : Table String :=
  match Component.ofTag? n.tag with
  | some c => (Resolution.resolve c (d.forNode c.tag n.classes) n.attributes).rawTexts
  | none => n.attributes

/-- Every text that counts for the node can be read. -/
def IsReadableAt (d : Defaults) (n : Node) : Prop :=
  ∀ c, Component.ofTag? n.tag = some c →
    Resolution.IsReadable c (d.forNode c.tag n.classes) n.attributes

end Defaults

mutual

/-- The tree with the resolved texts of each node as its own attributes. -/
def Node.inlined (d : Defaults) : Node → Node
  | ⟨tag, attributes, content, children⟩ =>
    ⟨tag, d.textsOf ⟨tag, attributes, content, children⟩, content, inlinedAll d children⟩

def inlinedAll (d : Defaults) : List Node → List Node
  | [] => []
  | n :: rest => n.inlined d :: inlinedAll d rest

end

private theorem inlinedAll_eq_map (d : Defaults) (ns : List Node) :
    inlinedAll d ns = ns.map (Node.inlined d) := by
  induction ns with
  | nil => rfl
  | cons n rest ih => rw [inlinedAll, ih, List.map_cons]

theorem Node.inlined_eq (d : Defaults) (n : Node) :
    n.inlined d = ⟨n.tag, d.textsOf n, n.content, n.children.map (Node.inlined d)⟩ := by
  obtain ⟨tag, attributes, content, children⟩ := n
  rw [Node.inlined, inlinedAll_eq_map]

@[simp] theorem Node.tag_inlined (d : Defaults) (n : Node) : (n.inlined d).tag = n.tag := by
  rw [Node.inlined_eq]

@[simp] theorem Node.content_inlined (d : Defaults) (n : Node) :
    (n.inlined d).content = n.content := by
  rw [Node.inlined_eq]

@[simp] theorem Node.attributes_inlined (d : Defaults) (n : Node) :
    (n.inlined d).attributes = d.textsOf n := by
  rw [Node.inlined_eq]

@[simp] theorem Node.children_inlined (d : Defaults) (n : Node) :
    (n.inlined d).children = n.children.map (Node.inlined d) := by
  rw [Node.inlined_eq]

private theorem Node.outline_inlined (d : Defaults) (n : Node) :
    (n.inlined d).outline = n.outline := by
  induction n using Node.childInduction with
  | step n ih =>
    have eta (o : Outline) : o = ⟨o.tag, o.children⟩ := by cases o; rfl
    rw [eta (n.inlined d).outline, eta n.outline]
    simp only [Node.tag_outline, Node.children_outline, Node.tag_inlined, Node.children_inlined,
      List.map_map]
    exact congrArg _ (List.map_congr_left ih)

private theorem Node.preorder_inlined (d : Defaults) (n : Node) :
    (n.inlined d).preorder = n.preorder.map (Node.inlined d) := by
  induction n using Node.childInduction with
  | step n ih =>
    rw [Node.preorder_eq, Node.preorder_eq n, Node.children_inlined, List.map_cons,
      List.map_flatMap, List.flatMap_map]
    exact congrArg _ (List.flatMap_congr ih)

theorem Defaults.forNode_empty (tag : String) (classes : List String) :
    Defaults.empty.forNode tag classes = .empty := by
  have start : Defaults.empty.all.overlay ((Defaults.empty.tags.get? tag).getD .empty) = .empty :=
    rfl
  rw [forNode, start]
  induction classes with
  | nil => rfl
  | cons name rest ih => exact ih

/-- The node in the inlined tree is resolved to the same settings, without any defaults. -/
theorem Node.resolve_inlined {d : Defaults} {n : Node} {c : Component}
    (known : Component.ofTag? n.tag = some c) (classes : List String) :
    Resolution.resolve c (Defaults.empty.forNode c.tag classes) (n.inlined d).attributes =
      Resolution.resolve c .empty
        (Resolution.resolve c (d.forNode c.tag n.classes) n.attributes).rawTexts := by
  rw [Defaults.forNode_empty, Node.attributes_inlined, Defaults.textsOf, known]

private theorem Node.settings_inlined {d : Defaults} {n : Node} (readable : d.IsReadableAt n)
    {c : Component} (known : Component.ofTag? n.tag = some c) (classes : List String) :
    (Resolution.resolve c (Defaults.empty.forNode c.tag classes)
      (n.inlined d).attributes).settings =
        (Resolution.resolve c (d.forNode c.tag n.classes) n.attributes).settings := by
  rw [Node.resolve_inlined known, Resolution.settings_rawTexts (readable c known)]

/-- What a resolution is asked for besides its findings is read off its settings. -/
theorem boxProblems_congr (c : Component) {r other : Resolution}
    (same : other.settings = r.settings) : boxProblems c other = boxProblems c r := by
  obtain ⟨settings, findings⟩ := r
  obtain ⟨_, others⟩ := other
  cases same
  cases c <;> rfl

private theorem Context.inside_congr (context : Context) (c : Component) {r other : Resolution}
    (same : other.settings = r.settings) : context.inside c other = context.inside c r := by
  obtain ⟨settings, findings⟩ := r
  obtain ⟨_, others⟩ := other
  cases same
  rfl

private theorem Resolution.raw?_congr {r other : Resolution} (same : other.settings = r.settings)
    (name : String) : other.raw? name = r.raw? name := by
  rw [Resolution.raw?, Resolution.raw?, same]

namespace Problem

def isImpossibleBox : Problem → Bool
  | .impossibleBox .. => true
  | _ => false

def isInvalidValue : Problem → Bool
  | .invalidValue .. => true
  | _ => false

end Problem

private theorem filter_isImpossibleBox_diagnostics (c : Component) (defaults own : Table String) :
    (Resolution.resolve c defaults own).diagnostics.filter Problem.isImpossibleBox = [] := by
  rw [List.filter_eq_nil_iff]
  intro p reported
  rcases Resolution.cases_of_mem_diagnostics reported with ⟨_, rfl⟩ | ⟨_, _, _, rfl⟩ <;>
    exact Bool.false_ne_true

private theorem filter_isImpossibleBox_boxProblems (c : Component) (r : Resolution) :
    (boxProblems c r).filter Problem.isImpossibleBox = boxProblems c r := by
  rw [List.filter_eq_self]
  intro p reported
  obtain ⟨width, rfl⟩ := eq_of_mem_boxProblems reported
  rfl

private theorem Defaults.isReadableAt_of_problems {d : Defaults} {n : Node}
    (valid : ∀ p ∈ d.problemsOf n, p.isInvalidValue = false) : d.IsReadableAt n := by
  intro c known
  apply List.eq_nil_iff_forall_not_mem.mpr
  intro p member
  have reported : p ∈ d.problemsOf n := by
    rw [Defaults.problemsOf, known]
    refine List.mem_append_left _ ?_
    rw [Resolution.diagnostics_resolve]
    exact List.mem_append_right _ member
  obtain ⟨e, -, rejected⟩ := List.mem_filterMap.mp member
  obtain ⟨_, -, -, rfl⟩ := Resolution.exists_of_rejection rejected
  cases valid _ reported

private theorem Node.problemsOf_inlined {d : Defaults} {n : Node} (readable : d.IsReadableAt n) :
    Defaults.empty.problemsOf (n.inlined d) = (d.problemsOf n).filter Problem.isImpossibleBox := by
  unfold Defaults.problemsOf
  rw [Node.tag_inlined]
  cases known : Component.ofTag? n.tag with
  | none => rfl
  | some c =>
    simp only [List.filter_append, filter_isImpossibleBox_diagnostics,
      filter_isImpossibleBox_boxProblems]
    rw [boxProblems_congr c (Node.settings_inlined readable known _), Node.resolve_inlined known,
      Resolution.diagnostics_rawTexts (readable c known)]

/-- The bundles of a node before and after differ in nothing that a template reads. -/
theorem Node.view_inlined {d : Defaults} {n : Node} (readable : d.IsReadableAt n)
    {c : Component} (known : Component.ofTag? n.tag = some c) (context : Context) :
    (Bundle.ofNode c (n.inlined d) (Defaults.empty.forNode c.tag (n.inlined d).classes)
      context).view = (Bundle.ofNode c n (d.forNode c.tag n.classes) context).view := by
  have settings := Node.settings_inlined readable known (n.inlined d).classes
  have content := n.content_inlined d
  simp only [Bundle.view, Bundle.ofNode, settings, content]

/-- Visits of a node before and after meet the same component. -/
theorem visited_inlined {d : Defaults} {n : Node} {context : Context} {r other : Rendered}
    (succeeds : (visit ⟨d, Template.standard⟩ context n).outcome = .ok r)
    (succeedsInlined :
      (visit ⟨.empty, Template.standard⟩ context (n.inlined d)).outcome = .ok other) :
    ∃ c rendered others, Visited ⟨d, Template.standard⟩ context n c rendered r ∧
      Visited ⟨.empty, Template.standard⟩ context (n.inlined d) c others other := by
  obtain ⟨c, rendered, visited⟩ := visited_of_ok succeeds
  obtain ⟨c', others, visitedInlined⟩ := visited_of_ok succeedsInlined
  have known := visitedInlined.known
  rw [Node.tag_inlined, visited.known] at known
  cases known
  exact ⟨c, rendered, others, visited, visitedInlined⟩

/-- The templates see the same node, and by induction the same wrapped children. -/
theorem rendered_inlined (d : Defaults) {n : Node} {context : Context} {r other : Rendered}
    (readable : ∀ m ∈ n.preorder, d.IsReadableAt m)
    (succeeds : (visit ⟨d, Template.standard⟩ context n).outcome = .ok r)
    (succeedsInlined :
      (visit ⟨.empty, Template.standard⟩ context (n.inlined d)).outcome = .ok other) :
    other.html = r.html ∧ other.wrapped = r.wrapped := by
  induction n using Node.childInduction generalizing context r other with
  | step n ih =>
    rw [Node.preorder_eq] at readable
    obtain ⟨here, below⟩ := List.forall_mem_cons.mp readable
    obtain ⟨c, rendered, others, visited, visitedInlined⟩ :=
      visited_inlined succeeds succeedsInlined
    have view := Node.view_inlined here visited.known context
    have inner : Setup.inner ⟨.empty, Template.standard⟩ context c (n.inlined d) =
        Setup.inner ⟨d, Template.standard⟩ context c n :=
      context.inside_congr c (Node.settings_inlined here visited.known _)
    have childrenInlined := visitedInlined.children
    rw [Node.children_inlined, inner] at childrenInlined
    have wrapped : others.map Rendered.wrapped = rendered.map Rendered.wrapped := by
      refine FirstFailure.map_eq_of_mapM_ok visited.children childrenInlined ?_
      intro child member r other visit visitInlined
      refine (ih child member ?_ visit visitInlined).2
      exact fun m inside => below m (List.mem_flatMap.mpr ⟨child, member, inside⟩)
    have written : r.html = html (Template.pieces (Setup.bundle ⟨d, _⟩ context c n) rendered) :=
      (Except.ok.inj visited.answer).symm
    have writtenInlined : other.html =
        html (Template.pieces (Setup.bundle ⟨.empty, _⟩ context c (n.inlined d)) others) :=
      (Except.ok.inj visitedInlined.answer).symm
    have sameHtml : other.html = r.html := by
      rw [written, writtenInlined, Setup.bundle, Setup.bundle, Template.pieces_view,
        Template.pieces_view c n, view, Template.pieces_congr _ wrapped]
    refine ⟨sameHtml, ?_⟩
    rw [Rendered.wrapped, Rendered.wrapped, sameHtml, visited.bundle, visitedInlined.bundle,
      Setup.bundle, Setup.bundle, Bundle.wrap_view, Bundle.wrap_view c n, view]

/-- The document without defaults in its head, its nodes having the texts that the defaults, over
those that lie `below` them, give them. -/
def Document.inlined (d : Document) (below : Defaults) : Document where
  head := { d.head with defaults := .empty }
  body := d.body.inlined (below.merge d.head.defaults)

/-- The trees report alike but for what is wrong with attributes. -/
theorem Node.problems_inlined {d : Defaults} {n : Node}
    (readable : ∀ m ∈ n.preorder, d.IsReadableAt m) :
    (n.inlined d).preorder.flatMap Defaults.empty.problemsOf =
      (n.preorder.flatMap d.problemsOf).filter Problem.isImpossibleBox := by
  rw [Node.preorder_inlined, List.flatMap_map, List.filter_flatMap]
  exact List.flatMap_congr fun m member => Node.problemsOf_inlined (readable m member)

private theorem background_inlined (d : Defaults) {n : Node} {context : Context}
    {r other : Rendered} (readable : d.IsReadableAt n)
    (succeeds : (visit ⟨d, Template.standard⟩ context n).outcome = .ok r)
    (succeedsInlined :
      (visit ⟨.empty, Template.standard⟩ context (n.inlined d)).outcome = .ok other) :
    (Events.background (visit ⟨.empty, Template.standard⟩ context (n.inlined d)).events).color =
      (Events.background (visit ⟨d, Template.standard⟩ context n).events).color := by
  obtain ⟨c, rendered, others, visited, visitedInlined⟩ :=
    visited_inlined succeeds succeedsInlined
  have settings := Node.settings_inlined readable visited.known (n.inlined d).classes
  have raw : (Setup.bundle ⟨.empty, Template.standard⟩ context c
      (n.inlined d)).attributes.raw? "background-color" =
        (Setup.bundle ⟨d, Template.standard⟩ context c n).attributes.raw? "background-color" :=
    Resolution.raw?_congr settings _
  rw [visited.background_eq, visitedInlined.background_eq, raw]

/-- Writing all defaults into the nodes changes nothing but what is reported of unknown attributes,
if every text that counts can be read. -/
theorem compile_inlined (d : Document) (config : Config) (out : Output)
    (soft : config.validation = .soft) (compiled : compile d config = .ok out)
    (valid : ∀ p ∈ out.diagnostics, p.isInvalidValue = false) :
    ∃ inlined, compile (d.inlined config.defaults) { config with defaults := .empty } =
        .ok inlined ∧
      inlined.html = out.html ∧ inlined.title = out.title ∧ inlined.preview = out.preview ∧
      inlined.background = out.background ∧
      inlined.diagnostics = out.diagnostics.filter Problem.isImpossibleBox := by
  have reported := diagnostics_of_compile soft compiled
  have readable : ∀ m ∈ d.body.preorder,
      (config.defaults.merge d.head.defaults).IsReadableAt m := by
    intro m member
    apply Defaults.isReadableAt_of_problems
    intro p problem
    apply valid p
    rw [reported]
    exact List.mem_flatMap.mpr ⟨m, member, problem⟩
  have legal : (d.inlined config.defaults).body.outline.IsLegal := by
    have legal := (compileWith_succeeds_iff Template.standard_isTotal d config).mp ⟨out, compiled⟩
    rw [Document.inlined, Node.outline_inlined]
    exact legal
  obtain ⟨inlined, compiledInlined⟩ := (compileWith_succeeds_iff Template.standard_isTotal
    (d.inlined config.defaults) { config with defaults := .empty }).mpr legal
  have softInlined : ({ config with defaults := .empty } : Config).validation = .soft := soft
  have diagnostics : inlined.diagnostics = out.diagnostics.filter Problem.isImpossibleBox := by
    rw [reported, diagnostics_of_compile softInlined compiledInlined]
    exact Node.problems_inlined readable
  have root := readable d.body (by rw [Node.preorder_eq]; exact List.mem_cons_self)
  obtain ⟨_, visited, rfl⟩ := FirstFailure.map_eq_ok_iff.mp compiled
  obtain ⟨_, visitedInlined, rfl⟩ := FirstFailure.map_eq_ok_iff.mp compiledInlined
  refine ⟨_, compiledInlined, ?_, rfl, rfl, ?_, diagnostics⟩
  · exact (rendered_inlined _ readable visited visitedInlined).1
  · exact background_inlined _ root visited visitedInlined

/-- The class and the entry for all nodes go into the badge, which keeps its impossible box. -/
theorem compile_inlined_classes :
    let badge : Node :=
      { tag := "mj-badge"
        attributes := .ofList [("mj-class", "tight"), ("colour", "red"), ("color", " ")]
        content := "New" }
    let tight : Table String := .ofList [("width", " 20px "), ("inner-padding", "15px")]
    let defaults : Defaults :=
      { all := .ofList [("css-class", "base")], classes := .ofList [("tight", tight)] }
    let head : Head := { defaults := defaults }
    let d : Document := ⟨head, ⟨"mj-body", .empty, "", [badge]⟩⟩
    ∃ out inlined, compile d {} = .ok out ∧ compile (d.inlined .empty) {} = .ok inlined ∧
      inlined.html = out.html ∧ inlined.diagnostics.map Problem.message =
        ["Impossible box on <mj-badge>: paddings and borders leave -12px of content width"] := by
  intro badge tight defaults head d
  have succeeds : (compile d {}).toOption.isSome = true := by decide +kernel
  cases compiled : compile d {} with
  | error p =>
    rw [compiled] at succeeds
    cases succeeds
  | ok out =>
    have soft : ({} : Config).validation = .soft := rfl
    have reported := diagnostics_of_compile soft compiled
    have valid : ∀ p ∈ out.diagnostics, p.isInvalidValue = false := by
      rw [reported]
      decide +kernel
    obtain ⟨inlined, compiledInlined, html, -, -, -, diagnostics⟩ :=
      compile_inlined d {} out rfl compiled valid
    refine ⟨out, inlined, rfl, compiledInlined, html, ?_⟩
    rw [diagnostics, reported]
    decide +kernel

end MailMarkup
