import MailMarkup.Proofs.SuccessfulVisits

/-!
# The bundles that are due

The tree, the context of its root and the defaults say which bundles there are to render and in
which order: a node after its children, children from left to right. The renderer has no part in
that. It is called with those bundles in that order, and with none that is not among them, however
far a visit gets.
-/
namespace MailMarkup

namespace Run

variable {α β : Type}

theorem events_andThen (r : Run α) (next : α → Run β) :
    (r.andThen next).events = r.events ++ r.outcome.toOption.elim [] fun a => (next a).events := by
  unfold andThen
  cases r.outcome with
  | error problem => exact (List.append_nil r.events).symm
  | ok a => rfl

end Run

namespace Events

theorem calls_append (events others : List Event) :
    calls (events ++ others) = calls events ++ calls others :=
  List.filterMap_append

private theorem calls_announcement (c : Component) (r : Resolution) :
    calls (announcement c r) = [] := by
  unfold announcement
  split
  · simp [calls, Event.call?]
  · rfl

private theorem calls_opening (s : Setup) (context : Context) (c : Component) (n : Node) :
    calls (s.opening context c n) = [] := by
  have none {α : Type} (f : α → Event) (silent : ∀ a, (f a).call? = none) (xs : List α) :
      calls (xs.map f) = [] := by
    simp [calls, silent]
  have visiting : calls [.visiting c context.width] = [] := rfl
  rw [Setup.opening, calls_append, calls_append, calls_append, visiting, none _ fun _ => rfl,
    none _ fun _ => rfl, none _ fun _ => rfl]
  rfl

end Events

mutual

/-- The bundles of a tree in a context. A node that no component renders has none. -/
def Setup.due (s : Setup) (context : Context) : Node → List Bundle
  | ⟨tag, attributes, content, children⟩ =>
    match Component.ofTag? tag with
    | none => []
    | some c =>
      let node : Node := ⟨tag, attributes, content, children⟩
      s.allDue (s.inner context c node) children ++ [s.bundle context c node]

def Setup.allDue (s : Setup) (context : Context) : List Node → List Bundle
  | [] => []
  | n :: rest => s.due context n ++ s.allDue context rest

end

variable (s : Setup) (context : Context)

theorem Setup.due_of_unknown {n : Node} (unknown : Component.ofTag? n.tag = none) :
    s.due context n = [] := by
  obtain ⟨tag, attributes, content, children⟩ := n
  rw [Setup.due, unknown]

theorem Setup.due_of_known {n : Node} {c : Component} (known : Component.ofTag? n.tag = some c) :
    s.due context n = s.allDue (s.inner context c n) n.children ++ [s.bundle context c n] := by
  obtain ⟨tag, attributes, content, children⟩ := n
  rw [Setup.due, known]

theorem Setup.allDue_eq_flatMap (ns : List Node) :
    s.allDue context ns = ns.flatMap (s.due context) := by
  induction ns with
  | nil => rfl
  | cons n rest ih => rw [Setup.allDue, ih, List.flatMap_cons]

theorem calls_of_unknown {n : Node} (unknown : Component.ofTag? n.tag = none) :
    Events.calls (visit s context n).events = [] := by
  rw [visit_of_unknown s context unknown]
  rfl

theorem calls_of_misplaced {n : Node} {c : Component} {problem : Problem}
    (known : Component.ofTag? n.tag = some c) (refused : misplaced? c n.children = some problem) :
    Events.calls (visit s context n).events = [] := by
  rw [visit_of_known s context known, Run.events_andThen_of_ok rfl, Events.calls_append]
  simp only [Setup.interior, refused]
  exact congrArg (· ++ []) (Events.calls_opening s context c n)

/-- A node whose children are in place leaves what its children leave and then, if these succeed,
the announcement and the call. -/
theorem events_of_placed {n : Node} {c : Component}
    (known : Component.ofTag? n.tag = some c) (placed : misplaced? c n.children = none) :
    (visit s context n).events = s.opening context c n ++ .entering c (s.inner context c n) ::
      ((visitAll s (s.inner context c n) n.children).events ++
        (visitAll s (s.inner context c n) n.children).outcome.toOption.elim [] fun rendered =>
          announcement c (s.bundle context c n).attributes ++
            [.called ⟨s.bundle context c n, rendered,
              s.renderer (s.bundle context c n) rendered⟩]) := by
  rw [visit_of_known s context known, Run.events_andThen_of_ok rfl]
  simp only [Setup.interior, placed, Run.bind_eq_andThen]
  rw [Run.events_andThen_of_ok rfl, Run.events_andThen]
  refine congrArg (fun last : List Event => s.opening context c n ++
    .entering c (s.inner context c n) :: (_ ++ last)) ?_
  cases (visitAll s (s.inner context c n) n.children).outcome with
  | error problem => rfl
  | ok rendered =>
    simp only [Except.toOption, Option.elim_some, Run.call, Run.events_andThen]
    cases s.renderer (s.bundle context c n) rendered <;> rfl

/-- Its calls are those for its children and then, if these succeed, its own. -/
theorem calls_of_placed {n : Node} {c : Component}
    (known : Component.ofTag? n.tag = some c) (placed : misplaced? c n.children = none) :
    Events.calls (visit s context n).events =
      Events.calls (visitAll s (s.inner context c n) n.children).events ++
        (visitAll s (s.inner context c n) n.children).outcome.toOption.elim [] fun rendered =>
          [⟨s.bundle context c n, rendered, s.renderer (s.bundle context c n) rendered⟩] := by
  have entering (events : List Event) :
      Events.calls (.entering c (s.inner context c n) :: events) = Events.calls events := rfl
  rw [events_of_placed s context known placed, Events.calls_append, Events.calls_opening, entering,
    Events.calls_append, List.nil_append]
  refine congrArg _ ?_
  cases (visitAll s (s.inner context c n) n.children).outcome with
  | error problem => rfl
  | ok rendered =>
    simp only [Except.toOption, Option.elim_some, Events.calls_append, Events.calls_announcement]
    rfl

/-- Nodes leave what the first of them leaves and then, if it succeeds, what the others do. -/
theorem events_visitAll_cons (n : Node) (rest : List Node) :
    (visitAll s context (n :: rest)).events = (visit s context n).events ++
      (visit s context n).outcome.toOption.elim [] fun _ => (visitAll s context rest).events := by
  rw [visitAll, Run.bind_eq_andThen, Run.events_andThen]
  refine congrArg _ ?_
  cases (visit s context n).outcome with
  | error problem => rfl
  | ok first =>
    simp only [Except.toOption, Option.elim_some, Run.bind_eq_andThen, Run.events_andThen]
    cases (visitAll s context rest).outcome <;> exact List.append_nil _

theorem calls_visitAll_cons (n : Node) (rest : List Node) :
    Events.calls (visitAll s context (n :: rest)).events =
      Events.calls (visit s context n).events ++
        (visit s context n).outcome.toOption.elim [] fun _ =>
          Events.calls (visitAll s context rest).events := by
  rw [events_visitAll_cons, Events.calls_append]
  cases (visit s context n).outcome <;> rfl

theorem outcome_visitAll_cons (n : Node) (rest : List Node) :
    (visitAll s context (n :: rest)).outcome = (visit s context n).outcome.bind fun first =>
      (visitAll s context rest).outcome.map (first :: ·) := by
  rw [outcome_visitAll, outcome_visitAll, List.mapM_cons]
  rfl

/-- What a run has called for against what was due: all of it if the run succeeds, and else the
first part of it. -/
def Meets (calls : List Call) (due : List Bundle) {α : Type} (outcome : Except Problem α) : Prop :=
  calls.map Call.bundle <+: due ∧ ∀ a, outcome = .ok a → calls.map Call.bundle = due

theorem Meets.none (due : List Bundle) {α : Type} (problem : Problem) :
    Meets [] due (.error problem : Except Problem α) :=
  ⟨List.nil_prefix, nofun⟩

/-- A run that goes on from the result of another meets what was due to both. -/
theorem Meets.andThen {calls : List Call} {due dueAfter : List Bundle} {α β : Type}
    {others : α → List Call} {first : Except Problem α} {last : Except Problem β}
    (meets : Meets calls due first) (next : ∀ a, first = .ok a → Meets (others a) dueAfter last)
    (fails : ∀ problem, first = .error problem → last = .error problem) :
    Meets (calls ++ first.toOption.elim [] others) (due ++ dueAfter) last := by
  cases first with
  | error problem =>
    rw [fails problem rfl]
    exact ⟨by simpa [Except.toOption] using meets.1.trans (List.prefix_append _ _), nofun⟩
  | ok a =>
    have all := meets.2 a rfl
    simpa [Meets, Except.toOption, all] using next a rfl

variable {s : Setup} {context : Context}

private theorem meets_visitAll {ns : List Node}
    (each : ∀ n ∈ ns, Meets (Events.calls (visit s context n).events) (s.due context n)
      (visit s context n).outcome) :
    Meets (Events.calls (visitAll s context ns).events) (s.allDue context ns)
      (visitAll s context ns).outcome := by
  induction ns with
  | nil => exact ⟨List.prefix_rfl, fun _ _ => rfl⟩
  | cons n rest ih =>
    obtain ⟨here, below⟩ := List.forall_mem_cons.mp each
    rw [calls_visitAll_cons, Setup.allDue]
    refine here.andThen (fun first visited => ?_) (fun problem failed => ?_)
    · obtain ⟨inOrder, complete⟩ := ih below
      refine ⟨inOrder, fun rendered succeeds => ?_⟩
      rw [outcome_visitAll_cons, visited] at succeeds
      obtain ⟨others, visitedRest, -⟩ := FirstFailure.map_eq_ok_iff.mp succeeds
      exact complete others visitedRest
    · rw [outcome_visitAll_cons, failed]
      rfl

/-- The renderer is called with the bundles that are due, one after another. -/
theorem meets_visit (n : Node) (context : Context) :
    Meets (Events.calls (visit s context n).events) (s.due context n)
      (visit s context n).outcome := by
  induction n using Node.childInduction generalizing context with
  | step n ih =>
    cases known : Component.ofTag? n.tag with
    | none =>
      rw [calls_of_unknown s context known, visit_of_unknown s context known]
      exact .none _ _
    | some c =>
      cases placed : misplaced? c n.children with
      | some problem =>
        rw [calls_of_misplaced s context known placed, outcome_of_misplaced s context known placed]
        exact .none _ _
      | none =>
        have outcome := outcome_of_placed s context known placed
        rw [← outcome_visitAll] at outcome
        rw [calls_of_placed s context known placed, s.due_of_known context known]
        refine (meets_visitAll fun child member => ih child member _).andThen
          (fun rendered _ => ⟨List.prefix_rfl, fun _ _ => rfl⟩) (fun problem failed => ?_)
        rw [outcome, failed]
        rfl

/-- No call is for anything that is not due. -/
theorem bundle_mem_due {n : Node} {call : Call}
    (made : call ∈ Events.calls (visit s context n).events) : call.bundle ∈ s.due context n :=
  (meets_visit n context).1.subset (List.mem_map_of_mem made)

end MailMarkup
