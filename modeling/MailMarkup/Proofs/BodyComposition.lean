import MailMarkup.Proofs.DefaultLayers
import MailMarkup.Proofs.OutlineLegality
import MailMarkup.Proofs.SuccessfulVisits
import MailMarkup.Proofs.TemplateInputs

/-!
# The markup of a body is made of fragments

A body is written as a frame of its own with one fragment for each child in it. The frame comes
from the attributes of the body, the defaults and the width of the settings; a fragment comes from
its child, the defaults that reach it and the width that the body hands on. No child leaves a trace
in the fragment of another, although all of them share the state of one traversal.
-/
namespace MailMarkup
open Markup

namespace Outlook

/-- What stands around a block that is wrapped. -/
def Wrap.start (w : Wrap) : String :=
  html [.outlook [.opening "tr" [], .opening "td" w.attributes], .line]

def Wrap.stop : String := html [.line, .outlook [.closing "td", .closing "tr"]]

theorem Wrap.around_of_needed {w : Wrap} (needed : w.needed = true) (inner : String) :
    w.around inner = w.start ++ inner ++ Wrap.stop := by
  have pieces : w.around inner =
      html ([.outlook [.opening "tr" [], .opening "td" w.attributes], .line] ++ [.text inner] ++
        [.line, .outlook [.closing "td", .closing "tr"]]) := by
    rw [Wrap.around, needed]
    rfl
  rw [pieces, html_append, html_append, html_text]
  rfl

end Outlook

namespace Defaults

/-- The bundle of a node that stands in a container of the given width. -/
def bundleOf (d : Defaults) (width : Float) (c : Component) (n : Node) : Bundle :=
  .ofNode c n (d.forNode c.tag n.classes) { width := width }

/-- What a block contributes to the markup of its body. -/
def fragment (d : Defaults) (width : Float) (n : Node) : String :=
  match Component.ofTag? n.tag with
  | some c =>
    let b := d.bundleOf width c n
    b.wrap.around (html (Template.pieces b []))
  | none => ""

end Defaults

/-- What is there of a body without its children. -/
structure Frame where
  start : String
  stop : String
  width : Float

namespace Frame

/-- The frame of a body of which the attributes are known, and nothing else. -/
def ofAttributes (d : Defaults) (width : Float) (attributes : Table String) : Frame :=
  let b := d.bundleOf width .body { tag := "mj-body", attributes := attributes }
  { start := html (Template.bodyStart b)
    stop := html (Template.bodyEnd b)
    width := (b.context.inside .body b.attributes).width }

def around (f : Frame) (fragments : List String) : String :=
  f.start ++ Text.joined "\n" fragments ++ f.stop

end Frame

variable {s : Setup} {context : Context}

/-- A block is rendered to its fragment, whatever background it stands before. -/
theorem wrapped_of_block {n : Node} {r : Rendered} (templates : s.renderer = Template.standard)
    (childless : n.children = []) (succeeds : (visit s context n).outcome = .ok r) :
    r.wrapped = s.defaults.fragment context.width n := by
  obtain ⟨c, rendered, visited⟩ := visited_of_ok succeeds
  have none : rendered = [] := by
    have children := visited.children
    rw [childless] at children
    cases children
    rfl
  have answer := visited.answer
  rw [templates, none] at answer
  have written : r.html = html (Template.pieces (s.bundle context c n) []) :=
    (Except.ok.inj answer).symm
  rw [Rendered.wrapped, written, visited.bundle, Defaults.fragment, visited.known]
  simp only [Setup.bundle, Defaults.bundleOf]
  rw [Template.pieces_view, Bundle.wrap_view, Template.pieces_view c n _ { width := context.width },
    Bundle.wrap_view c n _ { width := context.width }]
  rfl

private theorem wrapped_of_blocks {ns : List Node} {rendered : List Rendered}
    (templates : s.renderer = Template.standard) (childless : ∀ n ∈ ns, n.children = [])
    (succeed : (ns.mapM fun n => (visit s context n).outcome) = .ok rendered) :
    rendered.map Rendered.wrapped = ns.map (s.defaults.fragment context.width) := by
  rw [FirstFailure.mapM_eq_ok_iff] at succeed
  induction succeed with
  | nil => rfl
  | cons first rest ih =>
    obtain ⟨head, tail⟩ := List.forall_mem_cons.mp childless
    rw [List.map_cons, List.map_cons, wrapped_of_block templates head first, ih tail]

/-- A body of blocks is rendered to its frame with the fragments of its children. -/
theorem html_of_body {n : Node} {r : Rendered} (templates : s.renderer = Template.standard)
    (tag : n.tag = "mj-body") (childless : ∀ child ∈ n.children, child.children = [])
    (succeeds : (visit s context n).outcome = .ok r) :
    let frame := Frame.ofAttributes s.defaults context.width n.attributes
    r.html = frame.around (n.children.map (s.defaults.fragment frame.width)) := by
  intro frame
  obtain ⟨c, rendered, visited⟩ := visited_of_ok succeeds
  have body : c = .body :=
    Option.some.inj (visited.known.symm.trans (Component.ofTag?_eq_some_iff.mpr tag))
  subst body
  have answer := visited.answer
  rw [templates] at answer
  have written : r.html = html (Template.body (s.bundle context .body n) rendered) :=
    (Except.ok.inj answer).symm
  have fragments := wrapped_of_blocks templates childless visited.children
  rw [written, Template.html_body, fragments]
  rfl

namespace Defaults

/-- A node sees the layers for all nodes, for its tag and for the classes it names. -/
theorem forNode_congr {d other : Defaults} {tag : String} {classes : List String}
    (all : other.all = d.all) (ofTag : other.ofTag tag = d.ofTag tag)
    (ofClass : ∀ name ∈ classes, other.ofClass name = d.ofClass name) :
    other.forNode tag classes = d.forNode tag classes := by
  have bottom : other.all.overlay (other.ofTag tag) = d.all.overlay (d.ofTag tag) := by
    rw [all, ofTag]
  calc other.forNode tag classes
    _ = classes.foldl (fun t name => t.overlay (other.ofClass name))
          (d.all.overlay (d.ofTag tag)) := by rw [← bottom]; rfl
    _ = d.forNode tag classes :=
          List.foldl_ext _ _ _ fun t name member => by rw [ofClass name member]

private theorem fragment_raw (d : Defaults) (width : Float) {n : Node} (tag : n.tag = "mj-raw") :
    d.fragment width n = n.content := by
  have known : Component.ofTag? n.tag = some .raw := Component.ofTag?_eq_some_iff.mpr tag
  rw [fragment, known]
  exact html_text n.content

private theorem fragment_badge (d : Defaults) (width : Float) {n : Node}
    (tag : n.tag = "mj-badge") : d.fragment width n =
      (d.bundleOf width .badge n).wrap.start ++
        html (Template.badge (d.bundleOf width .badge n)) ++ Outlook.Wrap.stop := by
  have known : Component.ofTag? n.tag = some .badge := Component.ofTag?_eq_some_iff.mpr tag
  rw [fragment, known]
  exact Outlook.Wrap.around_of_needed rfl _

end Defaults

private theorem html_of_compile {d : Document} {config : Config} {out : Output}
    (tag : d.body.tag = "mj-body") (blocks : ∀ n ∈ d.body.children, n.outline.IsBlock)
    (compiled : compile d config = .ok out) :
    let defaults := config.defaults.merge d.head.defaults
    let frame := Frame.ofAttributes defaults config.containerWidth d.body.attributes
    out.html = frame.around (d.body.children.map (defaults.fragment frame.width)) := by
  have childless : ∀ n ∈ d.body.children, n.children = [] := by
    intro n member
    have empty := (blocks n member).2
    rw [Node.children_outline] at empty
    exact List.map_eq_nil_iff.mp empty
  obtain ⟨root, visited, rfl⟩ := FirstFailure.map_eq_ok_iff.mp compiled
  have written := html_of_body (s := setup Template.standard d config) rfl tag childless visited
  exact written

/-- The document with other nodes in its body. -/
def Document.withBlocks (d : Document) (blocks : List Node) : Document :=
  { d with body := { d.body with children := blocks } }

theorem compile_withBlocks {d : Document} (tag : d.body.tag = "mj-body") (config : Config)
    {blocks : List Node} (legal : ∀ n ∈ blocks, n.outline.IsBlock) :
    ∃ out, compile (d.withBlocks blocks) config = .ok out := by
  refine (compileWith_succeeds_iff Template.standard_isTotal _ config).mpr (.inr ⟨?_, ?_⟩)
  · rw [Node.tag_outline]
    exact tag
  · rw [Node.children_outline, List.forall_mem_map]
    exact legal

private theorem blocks_of_compile {d : Document} {config : Config} {out : Output}
    (compiled : compile d config = .ok out) : ∀ n ∈ d.body.children, n.outline.IsBlock := by
  have legal := (compileWith_succeeds_iff Template.standard_isTotal d config).mp ⟨out, compiled⟩
  rcases legal with block | ⟨-, children⟩
  · have childless := block.2
    rw [Node.children_outline, List.map_eq_nil_iff] at childless
    simp [childless]
  · rwa [Node.children_outline, List.forall_mem_map] at children

/-- The markup of a body is its frame, which does not depend on the children, around one fragment
for each child. A fragment depends on its child, the layers that reach the child and the width that
the body hands on, so it is the same when the child stands alone, and any change to the list of
children is the same change to the list of fragments. -/
theorem compile_composes_fragments (d : Document) (config : Config) (out : Output)
    (tag : d.body.tag = "mj-body") (compiled : compile d config = .ok out) :
    let defaults := config.defaults.merge d.head.defaults
    let frame := Frame.ofAttributes defaults config.containerWidth d.body.attributes
    let fragment := defaults.fragment frame.width
    out.html = frame.around (d.body.children.map fragment) ∧
    (∀ n ∈ d.body.children,
      (n.tag = "mj-raw" ∧ fragment n = n.content) ∨
      (n.tag = "mj-badge" ∧
        (let b := defaults.bundleOf frame.width .badge n
         fragment n = b.wrap.start ++ html (Template.badge b) ++ Outlook.Wrap.stop) ∧
        ∀ other : Defaults, other.all = defaults.all →
          other.ofTag "mj-badge" = defaults.ofTag "mj-badge" →
          (∀ name ∈ n.classes, other.ofClass name = defaults.ofClass name) →
          other.fragment frame.width n = fragment n)) ∧
    (∀ n ∈ d.body.children, ∃ alone, compile (d.withBlocks [n]) config = .ok alone ∧
      alone.html = frame.start ++ fragment n ++ frame.stop) ∧
    ∀ blocks : List Node, (∀ n ∈ blocks, n.outline.IsBlock) →
      ∃ changed, compile (d.withBlocks blocks) config = .ok changed ∧
        changed.html = frame.around (blocks.map fragment) := by
  intro defaults frame fragment
  have legal := blocks_of_compile compiled
  have changed : ∀ blocks : List Node, (∀ n ∈ blocks, n.outline.IsBlock) →
      ∃ changed, compile (d.withBlocks blocks) config = .ok changed ∧
        changed.html = frame.around (blocks.map fragment) := by
    intro blocks legalBlocks
    obtain ⟨changed, compiledChanged⟩ := compile_withBlocks tag config legalBlocks
    have written := html_of_compile (d := d.withBlocks blocks) tag legalBlocks compiledChanged
    exact ⟨changed, compiledChanged, written⟩
  refine ⟨html_of_compile tag legal compiled, ?_, ?_, changed⟩
  · intro n member
    rcases (legal n member).1 with badge | raw
    · rw [Node.tag_outline] at badge
      refine .inr ⟨badge, defaults.fragment_badge frame.width badge, ?_⟩
      intro other all ofTag ofClass
      have layers : other.forNode "mj-badge" n.classes = defaults.forNode "mj-badge" n.classes :=
        Defaults.forNode_congr all ofTag ofClass
      have bundles : other.bundleOf frame.width .badge n = defaults.bundleOf frame.width .badge n :=
        congrArg (Bundle.ofNode .badge n · { width := frame.width }) layers
      rw [other.fragment_badge frame.width badge, bundles,
        ← defaults.fragment_badge frame.width badge]
    · rw [Node.tag_outline] at raw
      exact .inl ⟨raw, defaults.fragment_raw frame.width raw⟩
  · intro n member
    exact changed [n] (by simpa using legal n member)

/-- The width of the body reaches both badges, and the rule between them is not wrapped. -/
theorem compile_composes_fragments_mixed :
    let rule : Node := { tag := "mj-raw", content := "<hr/>" }
    let badge : Node := { tag := "mj-badge", content := "New" }
    let d : Document := ⟨{}, ⟨"mj-body", .ofList [("width", "480px")], "", [badge, rule, badge]⟩⟩
    let frame := Frame.ofAttributes .empty 600 d.body.attributes
    let label := Defaults.empty.fragment frame.width badge
    ({ width := frame.width } : Context).widthText = "480px" ∧
    (∃ out, compile d {} = .ok out ∧
      out.html = frame.around [label, "<hr/>", label]) ∧
    ∃ alone, compile (d.withBlocks [rule]) {} = .ok alone ∧
      alone.html = frame.start ++ "<hr/>" ++ frame.stop := by
  intro rule badge d frame label
  have block : ∀ n ∈ d.body.children, n.outline.IsBlock := by
    simp [d, rule, badge, Outline.IsBlock]
  obtain ⟨out, compiled⟩ := compile_withBlocks (d := d) rfl {} block
  obtain ⟨written, -, alone, -⟩ := compile_composes_fragments d {} out rfl compiled
  have raw : Defaults.empty.fragment frame.width rule = "<hr/>" :=
    Defaults.empty.fragment_raw frame.width rfl
  refine ⟨by decide +kernel, ⟨out, compiled, ?_⟩, ?_⟩
  · rw [← raw]
    exact written
  · obtain ⟨single, compiledSingle, writtenSingle⟩ := alone rule (by simp [d])
    refine ⟨single, compiledSingle, ?_⟩
    rw [← raw]
    exact writtenSingle

end MailMarkup
