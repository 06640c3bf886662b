import MailMarkup.Proofs.OutlineLegality
import MailMarkup.Proofs.SuccessfulVisits

/-!
# The announced background

Only a body announces a background, and a body stands nowhere but at the root, so the background of
a compilation is the color that the root sets, if the root is a body.
-/
namespace MailMarkup

variable {s : Setup} {context : Context} {n : Node} {c : Component} {rendered : List Rendered}
  {r : Rendered}

/-- Children are blocks inside a body. -/
theorem Visited.child_isBlock (visited : Visited s context n c rendered r) {child : Node}
    (member : child ∈ n.children) :
    c = .body ∧ ∃ inside, Component.ofTag? child.tag = some inside ∧ inside ≠ .body := by
  obtain ⟨_, succeeds⟩ := visited.child_succeeds member
  obtain ⟨inside, _, below⟩ := visited_of_ok succeeds
  have accepted : c.acceptsChild inside = true := by
    by_contra refused
    rw [Bool.not_eq_true] at refused
    refine misplaced?_eq_none_iff.mp visited.placed child member ⟨inside, ?_, refused⟩
    rw [Node.tag_outline, below.known]
  obtain ⟨body, notBody⟩ := (Component.acceptsChild_iff c inside).mp accepted
  exact ⟨body, inside, below.known, notBody⟩

theorem Visited.childless (visited : Visited s context n c rendered r) (block : c ≠ .body) :
    n.children = [] := by
  apply List.eq_nil_iff_forall_not_mem.mpr
  intro child member
  exact block (visited.child_isBlock member).1

/-- An event that leaves the background as it is. -/
def Event.IsSilent (e : Event) : Prop := ∀ b, e.background b = b

private theorem Events.foldl_background {events : List Event} (silent : ∀ e ∈ events, e.IsSilent)
    (b : Background) : events.foldl Event.background b = b := by
  induction events with
  | nil => rfl
  | cons e rest ih =>
    obtain ⟨first, others⟩ := List.forall_mem_cons.mp silent
    rw [List.foldl_cons, first b, ih others]

private theorem Setup.isSilent_opening (s : Setup) (context : Context) (c : Component) (n : Node) :
    ∀ e ∈ s.opening context c n, e.IsSilent := by
  intro e member
  simp only [Setup.opening, List.mem_append, List.mem_singleton, List.mem_map] at member
  rcases member with ((rfl | ⟨_, -, rfl⟩) | ⟨_, -, rfl⟩) | ⟨_, -, rfl⟩ <;> exact fun b => rfl

/-- A block announces nothing. -/
theorem Visited.isSilent (visited : Visited s context n c rendered r) (block : c ≠ .body) :
    ∀ e ∈ (visit s context n).events, e.IsSilent := by
  have unannounced : announcement c (s.bundle context c n).attributes = [] := by
    cases c with
    | body => exact absurd rfl block
    | badge => rfl
    | raw => rfl
  rw [visited.events, visited.childless block, unannounced]
  intro e member
  rcases List.mem_append.mp member with opening | later
  · exact s.isSilent_opening context c n e opening
  · simp only [List.flatMap_nil, List.append_nil, List.nil_append, List.mem_cons, List.not_mem_nil,
      or_false] at later
    rcases later with rfl | rfl <;> exact fun b => rfl

/-- Nothing before the announcement of the root and nothing after it touches the background. -/
theorem Visited.background_eq (visited : Visited s context n c rendered r) :
    (Events.background (visit s context n).events).color =
      if c = .body then (s.bundle context c n).attributes.raw? "background-color" else none := by
  have children : ∀ e ∈ n.children.flatMap (fun child =>
      (visit s (s.inner context c n) child).events), e.IsSilent := by
    intro e member
    obtain ⟨child, inside, member⟩ := List.mem_flatMap.mp member
    obtain ⟨_, succeeds⟩ := visited.child_succeeds inside
    obtain ⟨d, _, below⟩ := visited_of_ok succeeds
    obtain ⟨-, known, tag, block⟩ := visited.child_isBlock inside
    cases below.known.symm.trans tag
    exact below.isSilent block e member
  rw [Events.background, visited.events, List.foldl_append,
    Events.foldl_background (s.isSilent_opening context c n), List.foldl_cons, List.foldl_append,
    List.foldl_append]
  have entering : Event.background {} (.entering c (s.inner context c n)) = {} := rfl
  rw [entering, Events.foldl_background children]
  cases c with
  | body =>
    simp only [announcement, Component.establishesBackground]
    cases (s.bundle context .body n).attributes.raw? "background-color" <;> rfl
  | badge => rfl
  | raw => rfl

end MailMarkup
