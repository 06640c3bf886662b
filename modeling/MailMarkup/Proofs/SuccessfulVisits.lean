import MailMarkup.Proofs.FirstFailure
import MailMarkup.Proofs.TraversalSteps

/-!
# Visits that succeed

A visit succeeds in one way only: the tag is known, the children are in place and succeed, and the
renderer answers. What it leaves is the opening of the node, then what its children leave from left
to right, then the announcement of the node and the call of the renderer. Facts about the events of
a whole compilation follow from this by induction over the tree.
-/
namespace MailMarkup

theorem Run.events_andThen_of_ok {α β : Type} {r : Run α} {next : α → Run β} {a : α}
    (succeeds : r.outcome = .ok a) : (r.andThen next).events = r.events ++ (next a).events := by
  unfold andThen
  rw [succeeds]

variable (s : Setup) (context : Context)

/-- Visits that all succeed leave their events one after the other. -/
theorem events_visitAll {ns : List Node} {rendered : List Rendered}
    (succeed : (visitAll s context ns).outcome = .ok rendered) :
    (visitAll s context ns).events = ns.flatMap fun n => (visit s context n).events := by
  induction ns generalizing rendered with
  | nil => rfl
  | cons n rest ih =>
    rw [visitAll, Run.bind_eq_andThen, Run.outcome_andThen] at succeed
    obtain ⟨first, visited, succeed⟩ := FirstFailure.bind_eq_ok_iff.mp succeed
    rw [Run.bind_eq_andThen, Run.outcome_andThen] at succeed
    obtain ⟨others, visitedRest, -⟩ := FirstFailure.bind_eq_ok_iff.mp succeed
    rw [visitAll, Run.bind_eq_andThen, Run.events_andThen_of_ok visited, Run.bind_eq_andThen,
      Run.events_andThen_of_ok visitedRest, ih visitedRest, List.flatMap_cons]
    simp [pure, Run.done]

/-- A visit with result `r`: the component met, the results of the children, and what is left. -/
structure Visited (n : Node) (c : Component) (rendered : List Rendered) (r : Rendered) : Prop where
  known : Component.ofTag? n.tag = some c
  placed : misplaced? c n.children = none
  children : (n.children.mapM fun child => (visit s (s.inner context c n) child).outcome) =
    .ok rendered
  answer : s.renderer (s.bundle context c n) rendered = .ok r.html
  bundle : r.bundle = s.bundle context c n
  events : (visit s context n).events = s.opening context c n ++
    .entering c (s.inner context c n) ::
      (n.children.flatMap (fun child => (visit s (s.inner context c n) child).events) ++
        announcement c (s.bundle context c n).attributes ++
        [.called ⟨s.bundle context c n, rendered, .ok r.html⟩])

variable {s context}

theorem visited_of_ok {n : Node} {r : Rendered} (succeeds : (visit s context n).outcome = .ok r) :
    ∃ c rendered, Visited s context n c rendered r := by
  cases known : Component.ofTag? n.tag with
  | none =>
    rw [visit_of_unknown s context known] at succeeds
    cases succeeds
  | some c =>
    cases placed : misplaced? c n.children with
    | some problem =>
      rw [outcome_of_misplaced s context known placed] at succeeds
      cases succeeds
    | none =>
      rw [outcome_of_placed s context known placed] at succeeds
      obtain ⟨rendered, children, succeeds⟩ := FirstFailure.bind_eq_ok_iff.mp succeeds
      obtain ⟨html, answer, rfl⟩ := FirstFailure.map_eq_ok_iff.mp succeeds
      refine ⟨c, rendered, known, placed, children, answer, rfl, ?_⟩
      have visits : (visitAll s (s.inner context c n) n.children).outcome = .ok rendered := by
        rw [outcome_visitAll, children]
      rw [visit_of_known s context known, Run.events_andThen_of_ok rfl]
      simp only [Setup.interior, placed, Run.bind_eq_andThen]
      rw [Run.events_andThen_of_ok rfl, Run.events_andThen_of_ok visits,
        Run.events_andThen_of_ok rfl, Run.events_andThen_of_ok answer, events_visitAll s _ visits]
      simp [Run.note, Run.call, answer, pure, Run.done]

/-- Each child of a visit that succeeds was visited with success. -/
theorem Visited.child_succeeds {n : Node} {c : Component} {rendered : List Rendered} {r : Rendered}
    (visited : Visited s context n c rendered r) {child : Node} (member : child ∈ n.children) :
    ∃ r, (visit s (s.inner context c n) child).outcome = .ok r :=
  FirstFailure.mapM_succeeds_iff.mp ⟨rendered, visited.children⟩ child member

end MailMarkup
