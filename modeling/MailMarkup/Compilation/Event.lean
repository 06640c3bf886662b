import MailMarkup.Template.Bundle

/-!
# Events of a compilation

A compilation leaves a list of events, in the order in which they happen, whether it succeeds or
not. The log, the diagnostics, the announced background and the calls of the renderer are views of
that one list.
-/
namespace MailMarkup

/-- One call of the renderer, with what it was given and what it answered. -/
structure Call where
  bundle : Bundle
  children : List Rendered
  answer : Except Problem String

inductive Event where
  | visiting (c : Component) (width : Float)
  | undeclared (tag name : String)
  | found (tag : String) (finding : Finding)
  | overfull (c : Component) (width : Float)
  | entering (c : Component) (inner : Context)
  | announced (color : String)
  | called (call : Call)

namespace Event

def overfullLine (c : Component) (width : Float) : Log.Line :=
  ⟨.warn, "<" ++ c.tag ++ ">: paddings and borders exceed the declared width ("
    ++ Decimal.text width ++ "px left)"⟩

def visitingLine (c : Component) (width : Float) : Log.Line :=
  ⟨.debug, "visiting <" ++ c.tag ++ "> in a " ++ Decimal.text width ++ "px container"⟩

def diagnostic? : Event → Option Problem
  | .found _ finding => finding.problem?
  | .overfull c width => some (.impossibleBox c.tag width)
  | _ => none

def call? : Event → Option Call
  | .called call => some call
  | _ => none

/-- The background after an event. -/
def background (b : Background) : Event → Background
  | .announced color => b.announce color
  | _ => b

/-- The log lines of an event that happens while `b` is announced. -/
def lines (b : Background) : Event → List Log.Line
  | .visiting c width => [visitingLine c width]
  | .undeclared tag name => [Defaults.undeclaredLine tag name]
  | .found tag finding => [finding.line tag]
  | .overfull c width => [overfullLine c width]
  | .entering c inner => if c.ownsLayout then [Context.insideLine c inner] else []
  | .announced color => b.announceLines color
  | .called _ => []

end Event

namespace Events

def diagnostics (events : List Event) : List Problem := events.filterMap Event.diagnostic?

def calls (events : List Event) : List Call := events.filterMap Event.call?

def background (events : List Event) : Background := events.foldl Event.background {}

def linesFrom : Background → List Event → List Log.Line
  | _, [] => []
  | b, e :: rest => e.lines b ++ linesFrom (e.background b) rest

def lines (events : List Event) : List Log.Line := linesFrom {} events

end Events

/-- The events up to the end of a computation, and its result or the problem that ended it. -/
structure Run (α : Type) where
  events : List Event
  outcome : Except Problem α

namespace Run

variable {α β : Type}

def done (a : α) : Run α := ⟨[], .ok a⟩

def fail (problem : Problem) : Run α := ⟨[], .error problem⟩

def note (events : List Event) : Run Unit := ⟨events, .ok ()⟩

def andThen (r : Run α) (next : α → Run β) : Run β :=
  match r.outcome with
  | .ok a => ⟨r.events ++ (next a).events, (next a).outcome⟩
  | .error problem => ⟨r.events, .error problem⟩

instance : Monad Run where
  pure := done
  bind := andThen

/-- Asks the renderer, and records the call. -/
def call (renderer : Renderer) (b : Bundle) (children : List Rendered) : Run String :=
  let answer := renderer b children
  ⟨[.called ⟨b, children, answer⟩], answer⟩

end Run
end MailMarkup
