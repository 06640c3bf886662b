import MailMarkup.Compilation.Event
import MailMarkup.Config.Basic
import MailMarkup.Template.Standard

/-!
# Compilation

A node is resolved in its context, its children are visited in theirs, and then the node is
rendered. Contexts flow down the tree and markup flows back up. A node whose tag no component has
ends the compilation, and so does a child that its parent does not accept, before any child is
visited.
-/
namespace MailMarkup

structure Setup where
  defaults : Defaults
  renderer : Renderer

namespace Setup

def bundle (s : Setup) (context : Context) (c : Component) (n : Node) : Bundle :=
  .ofNode c n (s.defaults.forNode c.tag n.classes) context

/-- The events of a node before its children are looked at. -/
def opening (s : Setup) (context : Context) (c : Component) (n : Node) : List Event :=
  let b := s.bundle context c n
  [.visiting c context.width] ++ (s.defaults.undeclared n.classes).map (.undeclared c.tag)
    ++ b.attributes.findings.map (.found c.tag)
    ++ (b.contentWidth.filter (· < 0)).toList.map (.overfull c)

end Setup

/-- The problem of the first child of known tag that the component does not accept. -/
def misplaced? (c : Component) (children : List Node) : Option Problem :=
  (children.find? fun child => (Component.ofTag? child.tag).any (!c.acceptsChild ·)).map
    fun child => .misplacedComponent c.tag child.tag

def announcement (c : Component) (r : Resolution) : List Event :=
  if c.establishesBackground then (r.raw? "background-color").toList.map .announced else []

mutual

def visit (s : Setup) (context : Context) : Node → Run Rendered
  | ⟨tag, attributes, content, children⟩ =>
    match Component.ofTag? tag with
    | none => .fail (.unknownComponent tag)
    | some c => do
      let node : Node := ⟨tag, attributes, content, children⟩
      let b := s.bundle context c node
      let inner := context.inside c b.attributes
      .note (s.opening context c node)
      match misplaced? c children with
      | some problem => .fail problem
      | none =>
        .note [.entering c inner]
        let rendered ← visitAll s inner children
        .note (announcement c b.attributes)
        let html ← .call s.renderer b rendered
        return ⟨b, html⟩

def visitAll (s : Setup) (context : Context) : List Node → Run (List Rendered)
  | [] => return []
  | n :: rest => do
    let first ← visit s context n
    let others ← visitAll s context rest
    return first :: others

end

structure Output where
  html : String
  title : Option String
  preview : Option String
  background : Option String
  diagnostics : List Problem

def setup (renderer : Renderer) (d : Document) (config : Config) : Setup where
  defaults := config.defaults.merge d.head.defaults
  renderer := renderer

/-- The body visited in a context that holds the width of the settings and no background. -/
def visitBody (renderer : Renderer) (d : Document) (config : Config) : Run Rendered :=
  visit (setup renderer d config) { width := config.containerWidth } d.body

def output (d : Document) (config : Config) (events : List Event) (root : Rendered) : Output where
  html := root.html
  title := d.head.title
  preview := d.head.preview
  background := (Events.background events).color
  diagnostics :=
    match config.validation with
    | .soft => Events.diagnostics events
    | .skip => []

def compileWith (renderer : Renderer) (d : Document) (config : Config) : Except Problem Output :=
  let run := visitBody renderer d config
  run.outcome.map (output d config run.events)

def compile (d : Document) (config : Config) : Except Problem Output :=
  compileWith Template.standard d config

def compileLines (renderer : Renderer) (d : Document) (config : Config) : List Log.Line :=
  Events.lines (visitBody renderer d config).events

end MailMarkup
