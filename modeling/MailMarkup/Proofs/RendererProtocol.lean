import MailMarkup.Proofs.DueBundles
import MailMarkup.Proofs.OutlineLegality

/-!
# The protocol between a compilation and its renderer

A compilation asks its renderer as a stack machine would that is given the bundles in postorder:
results wait for their parent, the latest last, and a call takes the results of the children of its
node and leaves its own. The first refusal ends the machine. Nothing is said of the renderer, so
this holds whatever it answers.
-/
namespace MailMarkup

def Rendered.node (r : Rendered) : Node := r.bundle.node

/-- The calls for bundles that are due, from the results that wait before them, and the results that
wait after them or the problem that the last call was answered with. -/
inductive Rendering (renderer : Renderer) :
    List Rendered → List Bundle → List Call → Except Problem (List Rendered) → Prop where
  | finished {waiting} : Rendering renderer waiting [] [] (.ok waiting)
  | answered {waiting children b html due calls result}
      (own : children.map Rendered.node = b.node.children)
      (answer : renderer b children = .ok html)
      (rest : Rendering renderer (waiting ++ [⟨b, html⟩]) due calls result) :
      Rendering renderer (waiting ++ children) (b :: due) (⟨b, children, .ok html⟩ :: calls) result
  | refused {waiting children b p due}
      (own : children.map Rendered.node = b.node.children)
      (answer : renderer b children = .error p) :
      Rendering renderer (waiting ++ children) (b :: due) [⟨b, children, .error p⟩] (.error p)

namespace Rendering

variable {renderer : Renderer} {waiting between : List Rendered} {due dueAfter : List Bundle}
variable {calls others : List Call} {result : Except Problem (List Rendered)}

theorem append (first : Rendering renderer waiting due calls (.ok between))
    (rest : Rendering renderer between dueAfter others result) :
    Rendering renderer waiting (due ++ dueAfter) (calls ++ others) result := by
  generalize ended : Except.ok between = middle at first
  induction first with
  | finished =>
    cases ended
    exact rest
  | answered own answer _ ih => exact .answered own answer (ih ended)
  | refused => cases ended

/-- What is due after a refusal is not called for. -/
theorem append_of_refused {p : Problem} (first : Rendering renderer waiting due calls (.error p))
    (dueAfter : List Bundle) : Rendering renderer waiting (due ++ dueAfter) calls (.error p) := by
  generalize ended : Except.error p = result at first
  induction first with
  | finished => cases ended
  | answered own answer _ ih => exact .answered own answer (ih ended)
  | refused own answer =>
    cases ended
    exact .refused own answer

/-- Every call is answered by the renderer, and given the results of the children of its node. -/
theorem call_answered (h : Rendering renderer waiting due calls result) {call : Call}
    (made : call ∈ calls) : call.answer = renderer call.bundle call.children ∧
      call.children.map Rendered.node = call.bundle.node.children := by
  induction h with
  | finished => cases made
  | answered own answer _ ih =>
    rcases List.mem_cons.mp made with rfl | made
    · exact ⟨answer.symm, own⟩
    · exact ih made
  | refused own answer =>
    cases List.mem_singleton.mp made
    exact ⟨answer.symm, own⟩

private theorem all_succeed (h : Rendering renderer waiting due calls (.ok between)) :
    ∀ call ∈ calls, ∃ html, call.answer = .ok html := by
  generalize ended : Except.ok between = result at h
  induction h with
  | finished => simp
  | answered _ _ _ ih => exact List.forall_mem_cons.mpr ⟨⟨_, rfl⟩, ih ended⟩
  | refused => cases ended

/-- The call that is refused is the last. -/
theorem last_refused {p : Problem} (h : Rendering renderer waiting due calls (.error p)) :
    ∃ before last, calls = before ++ [last] ∧ last.answer = .error p ∧
      ∀ call ∈ before, ∃ html, call.answer = .ok html := by
  generalize ended : Except.error p = result at h
  induction h with
  | finished => cases ended
  | answered _ _ _ ih =>
    obtain ⟨before, last, rfl, refused, succeed⟩ := ih ended
    exact ⟨_ :: before, last, rfl, refused, List.forall_mem_cons.mpr ⟨⟨_, rfl⟩, succeed⟩⟩
  | refused =>
    cases ended
    exact ⟨[], _, rfl, rfl, by simp⟩

end Rendering

variable {s : Setup} {context : Context}

/-- The result of a visit is at the root of what was visited. -/
theorem node_of_visit {n : Node} {r : Rendered} (succeeds : (visit s context n).outcome = .ok r) :
    r.node = n := by
  obtain ⟨c, rendered, visited⟩ := visited_of_ok succeeds
  rw [Rendered.node, visited.bundle]
  rfl

private theorem nodes_of_visitAll {ns : List Node} {rendered : List Rendered}
    (succeed : (visitAll s context ns).outcome = .ok rendered) :
    rendered.map Rendered.node = ns := by
  rw [outcome_visitAll, FirstFailure.mapM_eq_ok_iff] at succeed
  induction succeed with
  | nil => rfl
  | cons first _ ih => rw [List.map_cons, node_of_visit first, ih]

/-- Visits that each follow the protocol follow it one after another: each leaves its result above
the results of those before it. -/
theorem rendering_visitAll (context : Context) (ns : List Node)
    (each : ∀ n ∈ ns, ∀ waiting, Rendering s.renderer waiting (s.due context n)
      (Events.calls (visit s context n).events)
      ((visit s context n).outcome.map fun r => waiting ++ [r])) (waiting : List Rendered) :
    Rendering s.renderer waiting (s.allDue context ns)
      (Events.calls (visitAll s context ns).events)
      ((visitAll s context ns).outcome.map fun rendered => waiting ++ rendered) := by
  induction ns generalizing waiting with
  | nil =>
    have outcome : (visitAll s context []).outcome.map (waiting ++ ·) = .ok waiting :=
      congrArg Except.ok (List.append_nil waiting)
    rw [outcome]
    exact .finished
  | cons n rest ih =>
    obtain ⟨here, below⟩ := List.forall_mem_cons.mp each
    have first := here waiting
    rw [calls_visitAll_cons, outcome_visitAll_cons, Setup.allDue]
    cases outcome : (visit s context n).outcome with
    | error problem =>
      rw [outcome] at first
      simpa [Except.toOption, Except.map, Except.bind] using first.append_of_refused _
    | ok r =>
      rw [outcome] at first
      refine first.append ?_
      have others := ih below (waiting ++ [r])
      cases outcome : (visitAll s context rest).outcome <;>
        simpa [outcome, Except.toOption, Except.map, Except.bind] using others

/-- A visit of a legal tree renders what is due, and leaves its result above what was waiting. -/
theorem rendering_visit {n : Node} (legal : n.outline.IsLegal) (context : Context)
    (waiting : List Rendered) :
    Rendering s.renderer waiting (s.due context n) (Events.calls (visit s context n).events)
      ((visit s context n).outcome.map fun r => waiting ++ [r]) := by
  induction n using Node.childInduction generalizing context waiting with
  | step n ih =>
    obtain ⟨c, known⟩ := legal.known
    have tag := known
    rw [Node.tag_outline] at tag
    rw [Outline.isLegal_iff known, Node.children_outline, List.forall_mem_map] at legal
    have placed : misplaced? c n.children = none :=
      misplaced?_eq_none_iff.mpr fun child member => (legal child member).1
    have inside := rendering_visitAll (s.inner context c n) n.children
      (fun child member => ih child member (legal child member).2 _) waiting
    have outcome := outcome_of_placed s context tag placed
    rw [← outcome_visitAll] at outcome
    rw [calls_of_placed s context tag placed, s.due_of_known context tag, outcome]
    cases visits : (visitAll s (s.inner context c n) n.children).outcome with
    | error problem =>
      rw [visits] at inside
      simpa [Except.toOption, Except.map, Except.bind] using inside.append_of_refused _
    | ok rendered =>
      rw [visits] at inside
      refine inside.append ?_
      have own := nodes_of_visitAll visits
      cases answer : s.renderer (s.bundle context c n) rendered with
      | error problem =>
        simp only [Except.toOption, Option.elim_some, Except.bind, Except.map, answer]
        exact .refused own answer
      | ok html =>
        simp only [Except.toOption, Option.elim_some, Except.bind, Except.map, answer]
        exact .answered own answer .finished

mutual

/-- The nodes of a tree, children from left to right and a parent after its children. -/
def Node.postorder : Node → List Node
  | ⟨tag, attributes, content, children⟩ =>
    postorders children ++ [⟨tag, attributes, content, children⟩]

def postorders : List Node → List Node
  | [] => []
  | n :: rest => n.postorder ++ postorders rest

end

private theorem Node.postorder_eq (n : Node) : n.postorder = postorders n.children ++ [n] := by
  obtain ⟨tag, attributes, content, children⟩ := n
  rw [Node.postorder]

private theorem nodes_allDue {ns : List Node}
    (each : ∀ n ∈ ns, (s.due context n).map Bundle.node = n.postorder) :
    (s.allDue context ns).map Bundle.node = postorders ns := by
  induction ns with
  | nil => rfl
  | cons n rest ih =>
    obtain ⟨here, below⟩ := List.forall_mem_cons.mp each
    rw [Setup.allDue, List.map_append, here, ih below, postorders]

/-- In a legal tree every node is due, in postorder. -/
theorem nodes_due {n : Node} (legal : n.outline.IsLegal) (context : Context) :
    (s.due context n).map Bundle.node = n.postorder := by
  induction n using Node.childInduction generalizing context with
  | step n ih =>
    obtain ⟨c, known⟩ := legal.known
    rw [Outline.isLegal_iff known, Node.children_outline, List.forall_mem_map] at legal
    rw [Node.tag_outline] at known
    rw [s.due_of_known context known, List.map_append, Node.postorder_eq,
      nodes_allDue fun child member => ih child member (legal child member).2 _]
    rfl

/-- The calls that a compilation makes. -/
def callsOf (renderer : Renderer) (d : Document) (config : Config) : List Call :=
  Events.calls (visitBody renderer d config).events

/-- The bundles of the nodes of a document. -/
def bundlesOf (renderer : Renderer) (d : Document) (config : Config) : List Bundle :=
  (setup renderer d config).due { width := config.containerWidth } d.body

/-- What a compilation of a legal document asks of its renderer, and what it makes of the answers.
Either all nodes are rendered and the markup is the answer for the root, or the compilation ends
with the problem of its last call. -/
theorem compileWith_follows_protocol (renderer : Renderer) (d : Document) (config : Config)
    (legal : d.body.outline.IsLegal) :
    let calls := callsOf renderer d config
    let due := bundlesOf renderer d config
    due.map Bundle.node = d.body.postorder ∧
    (∀ call ∈ calls, call.answer = renderer call.bundle call.children ∧
      call.children.map Rendered.node = call.bundle.node.children) ∧
    ((∃ out root, compileWith renderer d config = .ok out ∧
        Rendering renderer [] due calls (.ok [root]) ∧ out.html = root.html ∧ root.node = d.body ∧
        calls.map Call.bundle = due ∧ ∀ call ∈ calls, ∃ html, call.answer = .ok html) ∨
      ∃ before last p, compileWith renderer d config = .error p ∧
        Rendering renderer [] due calls (.error p) ∧
        calls.map Call.bundle <+: due ∧ calls = before ++ [last] ∧ last.answer = .error p ∧
        ∀ call ∈ before, ∃ html, call.answer = .ok html) := by
  intro calls due
  have rendering : Rendering renderer [] due calls
      ((visitBody renderer d config).outcome.map fun r => [r]) :=
    rendering_visit (s := setup renderer d config) legal _ []
  obtain ⟨inOrder, complete⟩ : Meets calls due (visitBody renderer d config).outcome :=
    meets_visit d.body _
  refine ⟨nodes_due legal _, fun call made => rendering.call_answered made, ?_⟩
  cases outcome : (visitBody renderer d config).outcome with
  | ok root =>
    rw [outcome] at rendering
    refine .inl ⟨output d config (visitBody renderer d config).events root, root, ?_, rendering,
      rfl, node_of_visit outcome, complete root outcome, rendering.all_succeed⟩
    rw [compileWith, outcome]
    rfl
  | error p =>
    rw [outcome] at rendering
    obtain ⟨before, last, split, refused, succeed⟩ := rendering.last_refused
    refine .inr ⟨before, last, p, ?_, rendering, inOrder, split, refused, succeed⟩
    rw [compileWith, outcome]
    rfl

/-- A renderer that refuses raw blocks is asked for the badge before one and not for the badge
behind it. -/
theorem compileWith_follows_protocol_refused :
    let block (tag : String) : Node := { tag := tag }
    let d : Document :=
      ⟨{}, ⟨"mj-body", .empty, "", [block "mj-badge", block "mj-raw", block "mj-badge"]⟩⟩
    let problem := Problem.unknownComponent "mj-raw"
    let renderer : Renderer := fun b _ =>
      if b.component = .raw then .error problem else .ok b.node.tag
    d.body.outline.IsLegal ∧ compileWith renderer d {} = .error problem ∧
      ∃ before last, callsOf renderer d {} = before ++ [last] ∧ last.answer = .error problem ∧
        before.map (fun call => call.answer.toOption) = [some "mj-badge"] := by
  intro block d problem renderer
  have legal : d.body.outline.IsLegal := by
    refine .inr ⟨rfl, ?_⟩
    simp [d, block, Node.outline, outlines, Outline.IsBlock]
  refine ⟨legal, ?_⟩
  have answers : (callsOf renderer d {}).map (fun call => call.answer.toOption) =
      [some "mj-badge"] ++ [none] := by
    decide +kernel
  obtain ⟨-, answered, succeeds | ⟨before, last, p, failed, -, -, split, refused, -⟩⟩ :=
    compileWith_follows_protocol renderer d {} legal
  · obtain ⟨out, -, compiled, -⟩ := succeeds
    have fails : (compileWith renderer d {}).toOption.isNone = true := by decide +kernel
    rw [compiled] at fails
    cases fails
  · have made : last ∈ callsOf renderer d {} := by simp [split]
    have known : last.answer = .error problem := by
      have answer := (answered last made).1
      simp only [renderer] at answer
      split at answer
      · exact answer
      · cases answer.symm.trans refused
    rw [split, List.map_append] at answers
    cases refused.symm.trans known
    exact ⟨failed, before, last, split, known, (List.append_inj' answers rfl).1⟩

end MailMarkup
