import MailMarkup.Proofs.ResolutionExactness
import MailMarkup.Proofs.SuccessfulVisits

/-!
# Diagnostics in the order of the document

A compilation that succeeds reports on every node once, a parent before its children and children
from left to right, although a parent is rendered after its children. On one node the problems of
its attributes come first, then a box that its paddings and borders do not leave room for. Whether
the settings collect diagnostics changes nothing else.
-/
namespace MailMarkup

mutual

/-- The nodes of a tree, a parent before its children and children from left to right. -/
def Node.preorder : Node → List Node
  | ⟨tag, attributes, content, children⟩ =>
    ⟨tag, attributes, content, children⟩ :: preorders children

def preorders : List Node → List Node
  | [] => []
  | n :: rest => n.preorder ++ preorders rest

end

private theorem preorders_eq_flatMap (ns : List Node) :
    preorders ns = ns.flatMap Node.preorder := by
  induction ns with
  | nil => rfl
  | cons n rest ih => rw [preorders, ih, List.flatMap_cons]

theorem Node.preorder_eq (n : Node) : n.preorder = n :: n.children.flatMap Node.preorder := by
  obtain ⟨tag, attributes, content, children⟩ := n
  rw [Node.preorder, preorders_eq_flatMap]

/-- A badge whose content width is negative, with that width. -/
def boxProblems (c : Component) (r : Resolution) : List Problem :=
  match c, c.contentWidth r with
  | .badge, some width => if width < 0 then [.impossibleBox "mj-badge" width] else []
  | _, _ => []

theorem eq_of_mem_boxProblems {c : Component} {r : Resolution} {p : Problem}
    (member : p ∈ boxProblems c r) : ∃ width, p = .impossibleBox "mj-badge" width := by
  unfold boxProblems at member
  split at member
  · next width _ =>
    split at member
    · exact ⟨width, List.mem_singleton.mp member⟩
    · cases member
  · cases member

/-- What there is to report of one node: its attributes, then its box. -/
def Defaults.problemsOf (d : Defaults) (n : Node) : List Problem :=
  match Component.ofTag? n.tag with
  | some c =>
    let r := Resolution.resolve c (d.forNode c.tag n.classes) n.attributes
    r.diagnostics ++ boxProblems c r
  | none => []

namespace Events

theorem diagnostics_append (events others : List Event) :
    diagnostics (events ++ others) = diagnostics events ++ diagnostics others :=
  List.filterMap_append

theorem diagnostics_undeclared (tag : String) (names : List String) :
    diagnostics (names.map (.undeclared tag)) = [] := by
  simp [diagnostics, Event.diagnostic?]

private theorem diagnostics_found (tag : String) (findings : List Finding) :
    diagnostics (findings.map (.found tag)) = findings.filterMap Finding.problem? := by
  rw [diagnostics, List.filterMap_map]
  rfl

private theorem diagnostics_overfull (c : Component) (r : Resolution) :
    diagnostics (((c.contentWidth r).filter (· < 0)).toList.map (.overfull c)) =
      boxProblems c r := by
  cases c with
  | body => rfl
  | raw => rfl
  | badge =>
    unfold boxProblems
    cases Component.badge.contentWidth r with
    | none => rfl
    | some width =>
      by_cases negative : width < 0
      · simp [Option.filter, negative, diagnostics, Event.diagnostic?, Component.tag]
      · simp [Option.filter, negative, diagnostics]

end Events

/-- The opening of a node reports all there is to report of it. -/
theorem Setup.diagnostics_opening (s : Setup) (context : Context) {n : Node} {c : Component}
    (known : Component.ofTag? n.tag = some c) :
    Events.diagnostics (s.opening context c n) = s.defaults.problemsOf n := by
  have visiting : Events.diagnostics [.visiting c context.width] = [] := rfl
  rw [Setup.opening, Events.diagnostics_append, Events.diagnostics_append,
    Events.diagnostics_append, visiting, Events.diagnostics_undeclared, Events.diagnostics_found,
    Defaults.problemsOf, known]
  exact congrArg _ (Events.diagnostics_overfull c _)

/-- What a visit that succeeds adds to a view of the events, if the opening of a node is all that
adds to it. -/
theorem flatMap_visit {β : Type} {s : Setup} {view : Event → List β} {ofNode : Node → List β}
    (opening : ∀ context n c, Component.ofTag? n.tag = some c →
      (s.opening context c n).flatMap view = ofNode n)
    (entering : ∀ c inner, view (.entering c inner) = [])
    (announced : ∀ color, view (.announced color) = []) (called : ∀ call, view (.called call) = [])
    {n : Node} {context : Context} {r : Rendered}
    (succeeds : (visit s context n).outcome = .ok r) :
    (visit s context n).events.flatMap view = n.preorder.flatMap ofNode := by
  induction n using Node.childInduction generalizing context r with
  | step n ih =>
    obtain ⟨c, rendered, visited⟩ := visited_of_ok succeeds
    have inside : (n.children.flatMap fun child =>
        (visit s (s.inner context c n) child).events).flatMap view =
          n.children.flatMap fun child => child.preorder.flatMap ofNode := by
      rw [List.flatMap_assoc]
      refine List.flatMap_congr fun child member => ?_
      obtain ⟨_, childSucceeds⟩ := visited.child_succeeds member
      exact ih child member childSucceeds
    have announcement : (announcement c (s.bundle context c n).attributes).flatMap view = [] := by
      unfold MailMarkup.announcement
      split
      · simp [announced]
      · rfl
    have nodes : n.preorder.flatMap ofNode =
        ofNode n ++ n.children.flatMap fun child => child.preorder.flatMap ofNode := by
      rw [n.preorder_eq, List.flatMap_cons, List.flatMap_assoc]
    rw [visited.events, nodes, List.flatMap_append, List.flatMap_cons, entering,
      List.flatMap_append, List.flatMap_append, inside, announcement,
      opening context n c visited.known]
    simp [called]

/-- A visit that succeeds reports on the nodes of its tree one after the other. -/
theorem diagnostics_visit {s : Setup} {n : Node} {context : Context} {r : Rendered}
    (succeeds : (visit s context n).outcome = .ok r) :
    Events.diagnostics (visit s context n).events = n.preorder.flatMap s.defaults.problemsOf := by
  have view (events : List Event) :
      Events.diagnostics events = events.flatMap fun e => e.diagnostic?.toList :=
    List.filterMap_eq_flatMap_toList ..
  rw [view]
  refine flatMap_visit (fun context n c known => ?_) (fun _ _ => rfl) (fun _ => rfl)
    (fun _ => rfl) succeeds
  rw [← view, s.diagnostics_opening context known]

/-- Resolutions and boxes report nothing that would end a compilation. -/
theorem Defaults.isDiagnostic_of_mem {d : Defaults} {n : Node} {p : Problem}
    (reported : p ∈ d.problemsOf n) : p.isDiagnostic = true := by
  unfold Defaults.problemsOf at reported
  split at reported
  · next c known =>
    rcases List.mem_append.mp reported with resolved | box
    · rcases Resolution.cases_of_mem_diagnostics resolved with ⟨_, rfl⟩ | ⟨_, _, _, rfl⟩ <;> rfl
    · obtain ⟨width, rfl⟩ := eq_of_mem_boxProblems box
      rfl
  · cases reported

theorem diagnostics_of_compile {renderer : Renderer} {d : Document} {config : Config} {out : Output}
    (soft : config.validation = .soft) (compiled : compileWith renderer d config = .ok out) :
    out.diagnostics =
      d.body.preorder.flatMap (config.defaults.merge d.head.defaults).problemsOf := by
  obtain ⟨root, visited, rfl⟩ := FirstFailure.map_eq_ok_iff.mp compiled
  simp only [output, soft]
  exact diagnostics_visit visited

/-- A compilation that collects diagnostics reports on the nodes of the document in order, and one
that does not has the same result without them. -/
theorem compileWith_reports_preorder (renderer : Renderer) (d : Document) (config : Config) :
    (∀ out, config.validation = .soft → compileWith renderer d config = .ok out →
      out.diagnostics =
        d.body.preorder.flatMap (config.defaults.merge d.head.defaults).problemsOf ∧
      ∀ p ∈ out.diagnostics, p.isDiagnostic = true) ∧
    compileWith renderer d { config with validation := .skip } =
      (compileWith renderer d config).map fun out => { out with diagnostics := [] } := by
  constructor
  · intro out soft compiled
    have reported := diagnostics_of_compile soft compiled
    refine ⟨reported, fun p member => ?_⟩
    rw [reported] at member
    obtain ⟨n, -, member⟩ := List.mem_flatMap.mp member
    exact Defaults.isDiagnostic_of_mem member
  · have same : visitBody renderer d { config with validation := .skip } =
        visitBody renderer d config := rfl
    simp only [compileWith, same]
    cases (visitBody renderer d config).outcome <;> rfl

/-- The body is rendered last and reported on first, and the box of the badge after its colour. -/
theorem compileWith_reports_preorder_crowded :
    let badge : Node :=
      { tag := "mj-badge"
        attributes := .ofList [("width", "20px"), ("colour", "red"), ("inner-padding", "15px")] }
    let raw : Node := { tag := "mj-raw", attributes := .ofList [("width", "1px")] }
    let d : Document := ⟨{}, ⟨"mj-body", .ofList [("width", "wide")], "", [badge, raw]⟩⟩
    ∃ out, compileWith Template.standard d {} = .ok out ∧ out.diagnostics.map Problem.message =
      ["Invalid value 'wide' for attribute 'width': expected a length in px",
       "Unknown attribute 'colour' on <mj-badge>: dropped",
       "Impossible box on <mj-badge>: paddings and borders leave -12px of content width",
       "Unknown attribute 'width' on <mj-raw>: dropped"] ∧
      ∀ p ∈ out.diagnostics, p.isDiagnostic = true := by
  intro badge raw d
  have succeeds : (compileWith Template.standard d {}).toOption.isSome = true := by decide +kernel
  cases compiled : compileWith Template.standard d {} with
  | error p =>
    rw [compiled] at succeeds
    cases succeeds
  | ok out =>
    obtain ⟨reported, diagnostic⟩ :=
      (compileWith_reports_preorder Template.standard d {}).1 out rfl compiled
    refine ⟨out, rfl, ?_, diagnostic⟩
    rw [reported]
    decide +kernel

end MailMarkup
