import MailMarkup.Proofs.DefaultMerging
import MailMarkup.Proofs.DiagnosticOrder

/-!
# Warnings and diagnostics

What a compilation warns of and what it reports are two views of its events. A class that no layer
declares is warned of and not reported; every other warning stands for one diagnostic, in the same
order, and names the tag of the node that the diagnostic is about.
-/
namespace MailMarkup

namespace Log

def Line.isWarning (l : Line) : Bool := l.level = .warn

def warnings (lines : List Line) : List Line := lines.filter Line.isWarning

/-- The line says that a class is not declared. -/
def Line.isAboutClass (l : Line) : Bool := " is not declared".toList.isSuffixOf l.text.toList

end Log

/-- The warning that goes with a diagnostic of a node of the given tag. -/
def Problem.warning (tag : String) : Problem → Log.Line
  | .unknownAttribute _ name =>
    ⟨.warn, "<" ++ tag ++ ">: unknown attribute '" ++ name ++ "' dropped"⟩
  | .impossibleBox _ width =>
    ⟨.warn, "<" ++ tag ++ ">: paddings and borders exceed the declared width ("
      ++ Decimal.text width ++ "px left)"⟩
  | problem => ⟨.warn, "<" ++ tag ++ ">: " ++ problem.message ++ "; attribute left unset"⟩

/-- The warnings of an event, which do not depend on the background announced so far. -/
def Event.warnings (e : Event) : List Log.Line := Log.warnings (e.lines {})

private theorem Event.warnings_lines (b : Background) (e : Event) :
    Log.warnings (e.lines b) = e.warnings := by
  cases e with
  | announced color =>
    have silent (b : Background) : Log.warnings (b.announceLines color) = [] := by
      simp [Log.warnings, Background.announceLines, Log.Line.isWarning]
    exact (silent b).trans (silent {}).symm
  | _ => rfl

private theorem Events.warnings_linesFrom (b : Background) (events : List Event) :
    Log.warnings (linesFrom b events) = events.flatMap Event.warnings := by
  induction events generalizing b with
  | nil => rfl
  | cons e rest ih =>
    rw [linesFrom, List.flatMap_cons, ← ih (e.background b), ← e.warnings_lines b]
    exact List.filter_append ..

/-- Events of which each warns of what it reports. -/
theorem Events.flatMap_warnings {events : List Event} {tag : String}
    (each : ∀ e ∈ events, e.warnings = e.diagnostic?.toList.map (Problem.warning tag)) :
    events.flatMap Event.warnings = (diagnostics events).map (Problem.warning tag) := by
  rw [List.flatMap_congr each, diagnostics, List.filterMap_eq_flatMap_toList, List.map_flatMap]

/-- A finding that is rejected is a text that cannot be read. -/
theorem Resolution.invalid_of_rejected {c : Component} {defaults own : Table String} {p : Problem}
    (member : .rejected p ∈ (resolve c defaults own).findings) :
    ∃ name value type, p = .invalidValue name value type := by
  rcases List.mem_append.mp member with unknown | declared
  · obtain ⟨_, -, same⟩ := List.mem_map.mp unknown
    cases same
  · obtain ⟨⟨name, type⟩, -, found⟩ := List.mem_filterMap.mp declared
    obtain ⟨picked, -, judged⟩ := Option.map_eq_some_iff.mp found
    have rejected := judge_problem? name picked type
    rw [judged] at rejected
    exact ⟨_, _, _, (rejection?_eq_some_iff.mp rejected.symm).2⟩

private theorem Resolution.warnings_found {c : Component} {defaults own : Table String}
    {finding : Finding} (member : finding ∈ (resolve c defaults own).findings) (tag : String) :
    (Event.found tag finding).warnings = finding.problem?.toList.map (Problem.warning tag) := by
  cases finding with
  | unknown => rfl
  | accepted => rfl
  | rejected p =>
    obtain ⟨_, _, _, rfl⟩ := invalid_of_rejected member
    rfl

/-- What there is to warn of on a node: classes without a declaration, then what is reported. -/
def Defaults.warningsOf (d : Defaults) (n : Node) : List Log.Line :=
  (d.undeclared n.classes).map (undeclaredLine n.tag) ++
    (d.problemsOf n).map (Problem.warning n.tag)

private theorem Setup.warnings_opening (s : Setup) (context : Context) (n : Node) (c : Component)
    (known : Component.ofTag? n.tag = some c) :
    (s.opening context c n).flatMap Event.warnings = s.defaults.warningsOf n := by
  have tag : n.tag = c.tag := Component.ofTag?_eq_some_iff.mp known
  let classes : List Event := (s.defaults.undeclared n.classes).map (.undeclared c.tag)
  let problems : List Event := (s.bundle context c n).attributes.findings.map (.found c.tag) ++
    ((s.bundle context c n).contentWidth.filter (· < 0)).toList.map (.overfull c)
  have parts : s.opening context c n = .visiting c context.width :: (classes ++ problems) := by
    simp [opening, classes, problems]
  have undeclared : classes.flatMap Event.warnings =
      (s.defaults.undeclared n.classes).map (Defaults.undeclaredLine n.tag) := by
    rw [List.flatMap_map, tag]
    exact List.map_eq_flatMap.symm
  have each : ∀ e ∈ problems, e.warnings = e.diagnostic?.toList.map (Problem.warning n.tag) := by
    rw [tag]
    intro e member
    rcases List.mem_append.mp member with found | overfull
    · obtain ⟨finding, isFinding, rfl⟩ := List.mem_map.mp found
      exact Resolution.warnings_found isFinding c.tag
    · obtain ⟨width, -, rfl⟩ := List.mem_map.mp overfull
      rfl
  have reported : Events.diagnostics problems = s.defaults.problemsOf n := by
    have silent : Events.diagnostics classes = [] := Events.diagnostics_undeclared ..
    rw [← s.diagnostics_opening context known, parts, ← List.singleton_append,
      Events.diagnostics_append [_], Events.diagnostics_append classes, silent]
    rfl
  have visiting : Event.warnings (.visiting c context.width) = [] := rfl
  rw [parts, List.flatMap_cons, visiting, List.nil_append, List.flatMap_append, undeclared,
    Events.flatMap_warnings each, reported, Defaults.warningsOf]

/-- A visit that succeeds warns of its nodes one after the other. -/
theorem warnings_visit {s : Setup} {n : Node} {context : Context} {r : Rendered}
    (succeeds : (visit s context n).outcome = .ok r) :
    Log.warnings (Events.lines (visit s context n).events) =
      n.preorder.flatMap s.defaults.warningsOf := by
  rw [Events.lines, Events.warnings_linesFrom]
  refine flatMap_visit s.warnings_opening (fun c inner => ?_) (fun _ => rfl) (fun _ => rfl) succeeds
  cases c <;> rfl

private theorem isAboutClass_undeclaredLine (tag name : String) :
    (Defaults.undeclaredLine tag name).isAboutClass = true := by
  rw [Log.Line.isAboutClass, List.isSuffixOf_iff_suffix]
  exact ⟨("<" ++ tag ++ ">: mj-class '" ++ name ++ "'").toList, by
    simp [Defaults.undeclaredLine]⟩

/-- Of two ends of one text one ends the other. -/
theorem isAboutClass_eq_false {l : Log.Line} (front last : String) (text : l.text = front ++ last)
    (longer : ¬ last.toList <:+ " is not declared".toList)
    (shorter : ¬ " is not declared".toList <:+ last.toList) : l.isAboutClass = false := by
  rw [Log.Line.isAboutClass, Bool.eq_false_iff, ne_eq, List.isSuffixOf_iff_suffix]
  intro ends
  have endsToo : last.toList <:+ l.text.toList := ⟨front.toList, by simp [text]⟩
  exact (List.suffix_or_suffix_of_suffix endsToo ends).elim longer shorter

/-- Every other warning ends differently. -/
theorem isAboutClass_warning (p : Problem) (tag : String) :
    (p.warning tag).isAboutClass = false := by
  cases p with
  | unknownAttribute => exact isAboutClass_eq_false _ "' dropped" rfl (by decide) (by decide)
  | impossibleBox => exact isAboutClass_eq_false _ "px left)" rfl (by decide) (by decide)
  | _ => exact isAboutClass_eq_false _ "; attribute left unset" rfl (by decide) (by decide)

namespace Defaults

variable (d : Defaults) (n : Node)

private theorem filter_isAboutClass_warningsOf : (d.warningsOf n).filter (·.isAboutClass) =
    (d.undeclared n.classes).map (undeclaredLine n.tag) := by
  rw [warningsOf, List.filter_append, List.filter_map, List.filter_map]
  simp [Function.comp_def, isAboutClass_undeclaredLine, isAboutClass_warning]

private theorem filter_not_isAboutClass_warningsOf : (d.warningsOf n).filter (!·.isAboutClass) =
    (d.problemsOf n).map (Problem.warning n.tag) := by
  rw [warningsOf, List.filter_append, List.filter_map, List.filter_map]
  simp [Function.comp_def, isAboutClass_undeclaredLine, isAboutClass_warning]

/-- A class is declared in merged defaults if one of the two declares it. -/
theorem contains_classes_merge (upper : Defaults) (name : String) :
    (d.merge upper).classes.contains name =
      (d.classes.contains name || upper.classes.contains name) := by
  rw [Table.contains, merge, get?_extendAll, Table.contains, Table.contains]
  cases upper.classes.get? name <;> simp

end Defaults

/-- The diagnostics of a document, each with the tag of its node. -/
def Document.reports (d : Document) (config : Config) : List (String × Problem) :=
  d.body.preorder.flatMap fun n =>
    ((config.defaults.merge d.head.defaults).problemsOf n).map (n.tag, ·)

/-- Neither the settings nor the head declares the class. -/
def Document.isUndeclared (d : Document) (config : Config) (name : String) : Bool :=
  !config.defaults.classes.contains name && !d.head.defaults.classes.contains name

/-- The undeclared classes that nodes name, each with the tag of the node that names it. -/
def Document.undeclared (d : Document) (config : Config) : List (String × String) :=
  d.body.preorder.flatMap fun n => (n.classes.filter (d.isUndeclared config)).map (n.tag, ·)

/-- How warnings and diagnostics of a document go together. -/
structure Document.WarnsAsItReports (d : Document) (config : Config) (lines : List Log.Line)
    (diagnostics : List Problem) : Prop where
  reported : diagnostics = (d.reports config).map Prod.snd
  warned : (Log.warnings lines).filter (!·.isAboutClass) =
    (d.reports config).map fun r => r.2.warning r.1
  dropped : (Log.warnings lines).filter (·.isAboutClass) =
    (d.undeclared config).map fun u => Defaults.undeclaredLine u.1 u.2
  /-- A class counts as often as it is named. -/
  counted : ((Log.warnings lines).filter (·.isAboutClass)).length =
    (d.body.preorder.flatMap Node.classes).countP (d.isUndeclared config)

private theorem Document.length_undeclared (d : Document) (config : Config) :
    (d.undeclared config).length =
      (d.body.preorder.flatMap Node.classes).countP (d.isUndeclared config) := by
  rw [undeclared, List.length_flatMap, List.countP_flatMap]
  simp [Function.comp_def, List.countP_eq_length_filter]

theorem warnsAsItReports {renderer : Renderer} {d : Document} {config : Config} {out : Output}
    (soft : config.validation = .soft) (compiled : compileWith renderer d config = .ok out) :
    d.WarnsAsItReports config (compileLines renderer d config) out.diagnostics := by
  have reported := diagnostics_of_compile soft compiled
  obtain ⟨root, visited, -⟩ := FirstFailure.map_eq_ok_iff.mp compiled
  have warned : Log.warnings (compileLines renderer d config) =
      d.body.preorder.flatMap (config.defaults.merge d.head.defaults).warningsOf :=
    warnings_visit visited
  have dropped : (Log.warnings (compileLines renderer d config)).filter (·.isAboutClass) =
      (d.undeclared config).map fun u => Defaults.undeclaredLine u.1 u.2 := by
    rw [warned, List.filter_flatMap, Document.undeclared, List.map_flatMap]
    simp [Defaults.filter_isAboutClass_warningsOf, Defaults.undeclared,
      Defaults.contains_classes_merge, Function.comp_def]
    rfl
  refine ⟨?_, ?_, dropped, ?_⟩
  · rw [reported, Document.reports, List.map_flatMap]
    simp [Function.comp_def]
  · rw [warned, List.filter_flatMap, Document.reports, List.map_flatMap]
    simp [Defaults.filter_not_isAboutClass_warningsOf, Function.comp_def]
  · rw [dropped, List.length_map, d.length_undeclared]

/-- A compilation warns of its diagnostics one by one, and of undeclared classes besides, and its
log does not depend on whether it collects diagnostics. -/
theorem compileWith_warnsAsItReports (renderer : Renderer) (d : Document) (config : Config) :
    (∀ out, compileWith renderer d config = .ok out → ∃ soft,
      compileWith renderer d { config with validation := .soft } = .ok soft ∧
      d.WarnsAsItReports config (compileLines renderer d config) soft.diagnostics) ∧
    ∀ level, compileLines renderer d { config with validation := level } =
      compileLines renderer d config := by
  have sameVisit (level : Validation) :
      visitBody renderer d { config with validation := level } = visitBody renderer d config := rfl
  refine ⟨fun out compiled => ?_, fun level => by rw [compileLines, sameVisit, compileLines]⟩
  obtain ⟨root, visited, -⟩ := FirstFailure.map_eq_ok_iff.mp compiled
  have succeeds : compileWith renderer d { config with validation := .soft } =
      .ok (output d { config with validation := .soft } (visitBody renderer d config).events
        root) := by
    rw [compileWith, sameVisit, visited]
    rfl
  have warned := @warnsAsItReports renderer d { config with validation := .soft } _ rfl succeeds
  exact ⟨_, succeeds, ⟨warned.reported, warned.warned, warned.dropped, warned.counted⟩⟩

/-- A class that two nodes name, one of them twice, is warned of three times, and the other
warnings go with the diagnostics. -/
theorem compileWith_warnsAsItReports_crowded :
    let badge : Node :=
      { tag := "mj-badge"
        attributes := .ofList [("mj-class", "ghost  ghost"), ("width", "20px"), ("colour", "red"),
          ("inner-padding", "15px")] }
    let body : Node :=
      ⟨"mj-body", .ofList [("mj-class", "ghost"), ("width", "wide")], "", [badge]⟩
    let config : Config := { validation := .skip }
    let warnings := Log.warnings (compileLines Template.standard ⟨{}, body⟩ config)
    (warnings.filter (!·.isAboutClass)).map Log.Line.text =
      ["<mj-body>: Invalid value 'wide' for attribute 'width': expected a length in px" ++
        "; attribute left unset",
       "<mj-badge>: unknown attribute 'colour' dropped",
       "<mj-badge>: paddings and borders exceed the declared width (-12px left)"] ∧
      (warnings.filter (·.isAboutClass)).length = 3 := by
  intro badge body config warnings
  have succeeds : (compileWith Template.standard ⟨{}, body⟩ config).toOption.isSome = true := by
    decide +kernel
  cases compiled : compileWith Template.standard ⟨{}, body⟩ config with
  | error p =>
    rw [compiled] at succeeds
    cases succeeds
  | ok out =>
    obtain ⟨soft, -, together⟩ :=
      (compileWith_warnsAsItReports Template.standard ⟨{}, body⟩ config).1 out compiled
    constructor
    · rw [together.warned]
      decide +kernel
    · rw [together.counted]
      decide +kernel

end MailMarkup
