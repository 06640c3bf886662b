import MailMarkup.Proofs.ComponentTables
import MailMarkup.Proofs.FirstFailure
import MailMarkup.Proofs.TraversalSteps

/-!
# The tags of a tree decide whether it compiles

The outline of a tree keeps its tags and nothing else. A compilation with the standard templates
succeeds on exactly the legal outlines, and otherwise ends with the problem that the outline has:
whatever attributes, contents, defaults and settings say, they neither end a compilation nor save
one. Children are looked over for one that is out of place before the first of them is visited.
-/
namespace MailMarkup

/-- A tree of tags. -/
structure Outline where
  tag : String
  children : List Outline

mutual

def Node.outline : Node → Outline
  | ⟨tag, _, _, children⟩ => ⟨tag, outlines children⟩

def outlines : List Node → List Outline
  | [] => []
  | n :: rest => n.outline :: outlines rest

end

private theorem outlines_eq_map (ns : List Node) : outlines ns = ns.map Node.outline := by
  induction ns with
  | nil => rfl
  | cons n rest ih => rw [outlines, ih, List.map_cons]

@[simp] theorem Node.tag_outline (n : Node) : n.outline.tag = n.tag := by
  cases n
  rfl

@[simp] theorem Node.children_outline (n : Node) :
    n.outline.children = n.children.map Node.outline := by
  obtain ⟨tag, attributes, content, children⟩ := n
  exact outlines_eq_map children

namespace Outline

def IsBlock (o : Outline) : Prop := (o.tag = "mj-badge" ∨ o.tag = "mj-raw") ∧ o.children = []

/-- A block alone, or a body of blocks. -/
def IsLegal (o : Outline) : Prop :=
  o.IsBlock ∨ (o.tag = "mj-body" ∧ ∀ child ∈ o.children, child.IsBlock)

/-- Of known tag, but not to stand inside the component. -/
def IsMisplaced (parent : Component) (o : Outline) : Prop :=
  ∃ c, Component.ofTag? o.tag = some c ∧ parent.acceptsChild c = false

/-- The problem of an outline. A child that is out of place counts before everything inside the
children, also if one before it is unknown; else the first child that is not legal counts. -/
inductive Fault : Outline → Problem → Prop where
  | unknown {o} (tag : Component.ofTag? o.tag = none) : Fault o (.unknownComponent o.tag)
  | misplaced {o c} (before : List Outline) (child : Outline) (after : List Outline)
      (tag : Component.ofTag? o.tag = some c) (split : o.children = before ++ child :: after)
      (first : ∀ b ∈ before, ¬ b.IsMisplaced c) (refused : child.IsMisplaced c) :
      Fault o (.misplacedComponent o.tag child.tag)
  | inside {o c p} (before : List Outline) (child : Outline) (after : List Outline)
      (tag : Component.ofTag? o.tag = some c) (split : o.children = before ++ child :: after)
      (placed : ∀ b ∈ o.children, ¬ b.IsMisplaced c)
      (first : ∀ b ∈ before, b.IsLegal) (fault : Fault child p) : Fault o p

theorem IsBlock.known {o : Outline} (block : o.IsBlock) :
    ∃ c, Component.ofTag? o.tag = some c ∧ c ≠ .body := by
  rcases block.1 with tag | tag
  · exact ⟨.badge, Component.ofTag?_eq_some_iff.mpr tag, by decide⟩
  · exact ⟨.raw, Component.ofTag?_eq_some_iff.mpr tag, by decide⟩

theorem IsLegal.known {o : Outline} (legal : o.IsLegal) :
    ∃ c, Component.ofTag? o.tag = some c := by
  rcases legal with block | ⟨tag, -⟩
  · obtain ⟨c, known, -⟩ := block.known
    exact ⟨c, known⟩
  · exact ⟨.body, Component.ofTag?_eq_some_iff.mpr tag⟩

theorem IsLegal.isBlock {o : Outline} (legal : o.IsLegal) (tag : o.tag ≠ "mj-body") :
    o.IsBlock :=
  legal.resolve_right fun body => tag body.1

private theorem isMisplaced_iff {parent c : Component} {o : Outline}
    (known : Component.ofTag? o.tag = some c) :
    o.IsMisplaced parent ↔ parent.acceptsChild c = false := by
  constructor
  · rintro ⟨d, tag, refused⟩
    cases known.symm.trans tag
    exact refused
  · exact fun refused => ⟨c, known, refused⟩

/-- Legality from the children: all in place and legal themselves. The children of a block would
have to be unknown to be in place, and known to be legal. -/
theorem isLegal_iff {o : Outline} {c : Component} (known : Component.ofTag? o.tag = some c) :
    o.IsLegal ↔ ∀ child ∈ o.children, ¬ child.IsMisplaced c ∧ child.IsLegal := by
  have tag := Component.ofTag?_eq_some_iff.mp known
  constructor
  · rintro (block | ⟨body, blocks⟩) child member
    · rw [block.2] at member
      cases member
    · cases known.symm.trans (Component.ofTag?_eq_some_iff (c := .body).mpr body)
      obtain ⟨d, childKnown, notBody⟩ := (blocks child member).known
      refine ⟨?_, .inl (blocks child member)⟩
      rw [isMisplaced_iff childKnown, Bool.not_eq_false, Component.acceptsChild_iff]
      exact ⟨rfl, notBody⟩
  · intro children
    have accepted : ∀ child ∈ o.children, ∃ d, Component.ofTag? child.tag = some d ∧
        c = .body ∧ d ≠ .body := by
      intro child member
      obtain ⟨placed, legal⟩ := children child member
      obtain ⟨d, childKnown⟩ := legal.known
      rw [isMisplaced_iff childKnown, Bool.not_eq_false, Component.acceptsChild_iff] at placed
      exact ⟨d, childKnown, placed⟩
    have childless : c ≠ .body → o.children = [] := by
      intro block
      apply List.eq_nil_iff_forall_not_mem.mpr
      intro child member
      obtain ⟨d, -, body, -⟩ := accepted child member
      exact block body
    cases c with
    | badge => exact .inl ⟨.inl tag, childless (by decide)⟩
    | raw => exact .inl ⟨.inr tag, childless (by decide)⟩
    | body =>
      refine .inr ⟨tag, fun child member => (children child member).2.isBlock ?_⟩
      obtain ⟨d, childKnown, -, notBody⟩ := accepted child member
      intro body
      cases childKnown.symm.trans (Component.ofTag?_eq_some_iff (c := .body).mpr body)
      exact notBody rfl

private theorem Fault.not_isDiagnostic {o : Outline} {p : Problem} (fault : o.Fault p) :
    p.isDiagnostic = false := by
  induction fault with
  | unknown => rfl
  | misplaced => rfl
  | inside _ _ _ _ _ _ _ _ ih => exact ih

end Outline

private theorem any_refused_iff {c : Component} {n : Node} :
    (Component.ofTag? n.tag).any (!c.acceptsChild ·) = true ↔ n.outline.IsMisplaced c := by
  simp [Outline.IsMisplaced, Option.any_eq_true]

theorem misplaced?_eq_none_iff {c : Component} {children : List Node} :
    misplaced? c children = none ↔ ∀ child ∈ children, ¬ child.outline.IsMisplaced c := by
  simp only [misplaced?, Option.map_eq_none_iff, List.find?_eq_none, any_refused_iff]

theorem misplaced?_eq_some_iff {c : Component} {children : List Node} {p : Problem} :
    misplaced? c children = some p ↔ ∃ before child after, children = before ++ child :: after ∧
      (∀ b ∈ before, ¬ b.outline.IsMisplaced c) ∧ child.outline.IsMisplaced c ∧
      p = .misplacedComponent c.tag child.tag := by
  simp only [misplaced?, Option.map_eq_some_iff, List.find?_eq_some_iff_append]
  constructor
  · rintro ⟨child, ⟨refused, before, after, split, first⟩, rfl⟩
    refine ⟨before, child, after, split, ?_, any_refused_iff.mp refused, rfl⟩
    intro b member
    have accepted := first b member
    rwa [Bool.not_eq_true', ← Bool.not_eq_true, any_refused_iff] at accepted
  · rintro ⟨before, child, after, split, first, refused, rfl⟩
    refine ⟨child, ⟨any_refused_iff.mpr refused, before, after, split, ?_⟩, rfl⟩
    intro b member
    rw [Bool.not_eq_true', ← Bool.not_eq_true, any_refused_iff]
    exact first b member

/-- A renderer that answers whatever it is asked. -/
def Renderer.IsTotal (renderer : Renderer) : Prop :=
  ∀ b children, ∃ html, renderer b children = .ok html

theorem Template.standard_isTotal : Renderer.IsTotal Template.standard :=
  fun b children => ⟨Markup.html (Template.pieces b children), rfl⟩

variable {s : Setup} {n : Node} {c : Component} {context : Context}

/-- With a total renderer only the children can fail once they are in place. -/
private theorem placed_fails_iff (total : s.renderer.IsTotal)
    (known : Component.ofTag? n.tag = some c) (placed : misplaced? c n.children = none)
    (p : Problem) : (visit s context n).outcome = .error p ↔
      (n.children.mapM fun child => (visit s (s.inner context c n) child).outcome) = .error p := by
  rw [outcome_of_placed s context known placed]
  exact FirstFailure.bind_eq_error_iff fun rendered _ =>
    FirstFailure.map_succeeds_iff.mpr (total (s.bundle context c n) rendered)

private theorem placed_succeeds_iff (total : s.renderer.IsTotal)
    (known : Component.ofTag? n.tag = some c) (placed : misplaced? c n.children = none) :
    (∃ r, (visit s context n).outcome = .ok r) ↔
      ∀ child ∈ n.children, ∃ r, (visit s (s.inner context c n) child).outcome = .ok r := by
  rw [outcome_of_placed s context known placed, ← FirstFailure.mapM_succeeds_iff]
  exact FirstFailure.bind_succeeds_iff fun rendered _ =>
    FirstFailure.map_succeeds_iff.mpr (total (s.bundle context c n) rendered)

theorem visit_succeeds_iff (total : s.renderer.IsTotal) (n : Node) (context : Context) :
    (∃ r, (visit s context n).outcome = .ok r) ↔ n.outline.IsLegal := by
  induction n using Node.childInduction generalizing context with
  | step n ih =>
    cases known : Component.ofTag? n.tag with
    | none =>
      have unknown : ¬ n.outline.IsLegal := by
        intro legal
        obtain ⟨c, tag⟩ := legal.known
        rw [Node.tag_outline, known] at tag
        cases tag
      simp [visit_of_unknown s context known, Run.fail, unknown]
    | some c =>
      have known' : Component.ofTag? n.outline.tag = some c := by rw [Node.tag_outline, known]
      rw [Outline.isLegal_iff known', Node.children_outline, List.forall_mem_map]
      cases placed : misplaced? c n.children with
      | some q =>
        obtain ⟨before, child, after, split, -, refused, -⟩ := misplaced?_eq_some_iff.mp placed
        have member : child ∈ n.children := by simp [split]
        simp only [outcome_of_misplaced s context known placed, reduceCtorEq, exists_false, false_iff]
        exact fun children => (children child member).1 refused
      | none =>
        have inPlace := misplaced?_eq_none_iff.mp placed
        rw [placed_succeeds_iff total known placed]
        constructor
        · exact fun succeed child member =>
            ⟨inPlace child member, (ih child member _).mp (succeed child member)⟩
        · exact fun legal child member => (ih child member _).mpr (legal child member).2

private theorem fault_of_fails (total : s.renderer.IsTotal) (n : Node) (context : Context)
    {p : Problem} (fails : (visit s context n).outcome = .error p) : n.outline.Fault p := by
  induction n using Node.childInduction generalizing context with
  | step n ih =>
    cases known : Component.ofTag? n.tag with
    | none =>
      rw [visit_of_unknown s context known] at fails
      cases fails
      rw [← Node.tag_outline]
      exact .unknown (by rw [Node.tag_outline, known])
    | some c =>
      have known' : Component.ofTag? n.outline.tag = some c := by rw [Node.tag_outline, known]
      have tag := Component.ofTag?_eq_some_iff.mp known
      cases placed : misplaced? c n.children with
      | some q =>
        cases (outcome_of_misplaced s context known placed).symm.trans fails
        obtain ⟨before, child, after, split, first, refused, rfl⟩ :=
          misplaced?_eq_some_iff.mp placed
        rw [← tag, ← Node.tag_outline n, ← Node.tag_outline child]
        refine .misplaced (before.map Node.outline) child.outline (after.map Node.outline)
          known' ?_ (List.forall_mem_map.mpr first) refused
        rw [Node.children_outline, split, List.map_append, List.map_cons]
      | none =>
        rw [placed_fails_iff total known placed] at fails
        obtain ⟨before, child, after, split, succeed, fails⟩ :=
          FirstFailure.mapM_eq_error_iff.mp fails
        have member : child ∈ n.children := by simp [split]
        refine .inside (before.map Node.outline) child.outline (after.map Node.outline)
          known' ?_ ?_ ?_ (ih child member _ fails)
        · rw [Node.children_outline, split, List.map_append, List.map_cons]
        · rw [Node.children_outline, List.forall_mem_map]
          exact misplaced?_eq_none_iff.mp placed
        · rw [List.forall_mem_map]
          exact fun b hb => (visit_succeeds_iff total b _).mp (succeed b hb)

private theorem fails_of_fault (total : s.renderer.IsTotal) {o : Outline} {p : Problem}
    (fault : o.Fault p) (n : Node) (context : Context) (outline : n.outline = o) :
    (visit s context n).outcome = .error p := by
  induction fault generalizing n context with
  | unknown tag =>
    subst outline
    rw [Node.tag_outline] at tag ⊢
    rw [visit_of_unknown s context tag]
    rfl
  | misplaced before child after tag split first refused =>
    subst outline
    rw [Node.tag_outline] at tag ⊢
    rw [Node.children_outline, List.map_eq_append_iff] at split
    obtain ⟨before, rest, children, rfl, restOutline⟩ := split
    obtain ⟨child, after, rfl, rfl, -⟩ := List.map_eq_cons_iff.mp restOutline
    apply outcome_of_misplaced s context tag
    rw [misplaced?_eq_some_iff]
    refine ⟨before, child, after, children, ?_, refused, ?_⟩
    · exact fun b hb => first b.outline (List.mem_map_of_mem hb)
    · rw [Component.ofTag?_eq_some_iff.mp tag, Node.tag_outline]
  | inside before child after tag split placed first fault ih =>
    subst outline
    rw [Node.tag_outline] at tag
    rw [Node.children_outline, List.forall_mem_map] at placed
    rw [Node.children_outline, List.map_eq_append_iff] at split
    obtain ⟨before, rest, children, rfl, restOutline⟩ := split
    obtain ⟨child, after, rfl, rfl, -⟩ := List.map_eq_cons_iff.mp restOutline
    rw [placed_fails_iff total tag (misplaced?_eq_none_iff.mpr placed),
      FirstFailure.mapM_eq_error_iff]
    refine ⟨before, child, after, children, ?_, ih child _ rfl⟩
    exact fun b hb => (visit_succeeds_iff total b _).mpr (List.forall_mem_map.mp first b hb)

theorem visit_fails_iff (total : s.renderer.IsTotal) (n : Node) (context : Context) (p : Problem) :
    (visit s context n).outcome = .error p ↔ n.outline.Fault p :=
  ⟨fault_of_fails total n context, fun fault => fails_of_fault total fault n context rfl⟩

theorem compileWith_succeeds_iff {renderer : Renderer} (total : renderer.IsTotal) (d : Document)
    (config : Config) :
    (∃ out, compileWith renderer d config = .ok out) ↔ d.body.outline.IsLegal :=
  FirstFailure.map_succeeds_iff.trans
    (visit_succeeds_iff (s := setup renderer d config) total d.body _)

theorem compileWith_fails_iff {renderer : Renderer} (total : renderer.IsTotal) (d : Document)
    (config : Config) (p : Problem) :
    compileWith renderer d config = .error p ↔ d.body.outline.Fault p :=
  FirstFailure.map_eq_error_iff.trans
    (visit_fails_iff (s := setup renderer d config) total d.body _ p)

/-- Documents with one outline compile alike, whatever else they and their settings say. -/
theorem compile_follows_outline (d : Document) (config : Config) :
    ((∃ out, compile d config = .ok out) ↔ d.body.outline.IsLegal) ∧
      (∀ p, compile d config = .error p ↔ d.body.outline.Fault p) ∧
      (∀ p, compile d config = .error p → p.isDiagnostic = false) ∧
      ∀ d' config', d'.body.outline = d.body.outline →
        ∀ p, compile d' config' = .error p ↔ compile d config = .error p := by
  have fails := compileWith_fails_iff Template.standard_isTotal
  refine ⟨compileWith_succeeds_iff Template.standard_isTotal d config, fails d config, ?_, ?_⟩
  · exact fun p failed => ((fails d config p).mp failed).not_isDiagnostic
  · intro d' config' same p
    exact (fails d' config' p).trans (same ▸ (fails d config p).symm)

/-- A body inside the body counts before an unknown block that stands ahead of it. -/
theorem compile_follows_outline_nested :
    let plain : Document := ⟨{}, { tag := "mj-body", children := [⟨"mj-hero", .empty, "", []⟩,
      ⟨"mj-body", .empty, "", []⟩] }⟩
    let wide : Document := ⟨{ title := some "wide" }, (plain.body.withAttribute "width" "no")⟩
    let problem := Problem.misplacedComponent "mj-body" "mj-body"
    compile wide {} = .error problem ∧ problem.isDiagnostic = false ∧
      compile plain { validation := .skip } = .error problem := by
  intro plain wide problem
  obtain ⟨-, fails, fatal, same⟩ := compile_follows_outline wide {}
  have hero : ¬ Outline.IsMisplaced .body ⟨"mj-hero", []⟩ := by
    rintro ⟨c, known, -⟩
    cases known
  have failed : compile wide {} = .error problem :=
    (fails problem).mpr (.misplaced (c := .body) [⟨"mj-hero", []⟩] ⟨"mj-body", []⟩ [] rfl rfl
      (by simpa using hero) ⟨.body, rfl, rfl⟩)
  exact ⟨failed, fatal problem failed, (same plain _ rfl problem).mpr failed⟩

end MailMarkup
