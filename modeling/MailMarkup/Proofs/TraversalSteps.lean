import MailMarkup.Compilation.Visit

/-!
# The steps of a traversal

A visit opens the node, looks its children over for one that is out of place, visits them in order
and renders the node. Each step is stated once, on events and outcomes, so that facts about a
traversal follow by induction over the children without opening it again.
-/
namespace MailMarkup

/-- Induction over a tree through the children of its nodes. -/
@[elab_as_elim] theorem Node.childInduction {motive : Node → Prop}
    (step : ∀ n : Node, (∀ child ∈ n.children, motive child) → motive n) (n : Node) : motive n :=
  step n fun child _ => Node.childInduction step child
termination_by sizeOf n
decreasing_by
  cases n
  next member =>
    have smaller := List.sizeOf_lt_of_mem member
    simp only [Node.mk.sizeOf_spec] at smaller ⊢
    omega

namespace Run

variable {α β : Type}

@[simp] theorem bind_eq_andThen (r : Run α) (next : α → Run β) : r >>= next = r.andThen next := rfl

theorem outcome_andThen (r : Run α) (next : α → Run β) :
    (r.andThen next).outcome = r.outcome.bind fun a => (next a).outcome := by
  unfold andThen
  cases r.outcome <;> rfl

/-- What a computation leaves stands before what follows it, whether anything follows or not. -/
theorem events_prefix_andThen (r : Run α) (next : α → Run β) :
    r.events <+: (r.andThen next).events := by
  unfold andThen
  cases r.outcome with
  | error problem => exact List.prefix_rfl
  | ok a => exact List.prefix_append _ _

end Run

namespace Setup

/-- The context that a node hands to its children. -/
def inner (s : Setup) (context : Context) (c : Component) (n : Node) : Context :=
  context.inside c (s.bundle context c n).attributes

/-- What a visit does after the opening of a node. -/
def interior (s : Setup) (context : Context) (c : Component) (n : Node) : Run Rendered :=
  match misplaced? c n.children with
  | some problem => .fail problem
  | none => do
    .note [.entering c (s.inner context c n)]
    let rendered ← visitAll s (s.inner context c n) n.children
    .note (announcement c (s.bundle context c n).attributes)
    let html ← .call s.renderer (s.bundle context c n) rendered
    return ⟨s.bundle context c n, html⟩

end Setup

variable (s : Setup) (context : Context)

theorem visit_of_unknown {n : Node} (unknown : Component.ofTag? n.tag = none) :
    visit s context n = .fail (.unknownComponent n.tag) := by
  obtain ⟨tag, attributes, content, children⟩ := n
  rw [visit, unknown]

theorem visit_of_known {n : Node} {c : Component} (known : Component.ofTag? n.tag = some c) :
    visit s context n =
      (Run.note (s.opening context c n)).andThen fun _ => s.interior context c n := by
  obtain ⟨tag, attributes, content, children⟩ := n
  rw [visit, known]
  rfl

theorem opening_prefix_visit {n : Node} {c : Component}
    (known : Component.ofTag? n.tag = some c) :
    s.opening context c n <+: (visit s context n).events := by
  rw [visit_of_known s context known]
  exact Run.events_prefix_andThen (.note (s.opening context c n)) _

theorem outcome_visitAll (ns : List Node) :
    (visitAll s context ns).outcome = ns.mapM fun n => (visit s context n).outcome := by
  induction ns with
  | nil => rfl
  | cons n rest ih =>
    rw [List.mapM_cons, ← ih, visitAll, Run.bind_eq_andThen, Run.outcome_andThen]
    cases (visit s context n).outcome with
    | error problem => rfl
    | ok first =>
      simp only [Except.bind, Run.bind_eq_andThen, Run.outcome_andThen]
      cases (visitAll s context rest).outcome <;> rfl

theorem outcome_of_misplaced {n : Node} {c : Component} {problem : Problem}
    (known : Component.ofTag? n.tag = some c) (refused : misplaced? c n.children = some problem) :
    (visit s context n).outcome = .error problem := by
  rw [visit_of_known s context known, Run.outcome_andThen]
  simp only [Setup.interior, refused]
  rfl

/-- A node whose children are in place fails with the first of them that fails, or with what the
renderer answers. -/
theorem outcome_of_placed {n : Node} {c : Component}
    (known : Component.ofTag? n.tag = some c) (placed : misplaced? c n.children = none) :
    (visit s context n).outcome =
      (n.children.mapM fun child => (visit s (s.inner context c n) child).outcome).bind
        fun rendered => (s.renderer (s.bundle context c n) rendered).map
          fun html => ⟨s.bundle context c n, html⟩ := by
  rw [visit_of_known s context known, Run.outcome_andThen, ← outcome_visitAll]
  simp only [Setup.interior, placed, Run.bind_eq_andThen, Run.outcome_andThen]
  cases (visitAll s (s.inner context c n) n.children).outcome with
  | error problem => rfl
  | ok rendered =>
    simp only [Run.note, Run.call, Except.bind]
    cases s.renderer (s.bundle context c n) rendered <;> rfl

end MailMarkup
