import MailMarkup.Proofs.AdmittedLengths
import MailMarkup.Proofs.AnnouncedBackground
import MailMarkup.Proofs.RendererProtocol

/-!
# Contexts flow down

The root of a document has the context of the settings, and all children of a body have one context,
which the attributes of the body alone determine. The background that is announced to the page is
the one that the children see. What stands in a body reaches neither, and neither does anything that
was compiled before.
-/
namespace MailMarkup

/-- A node and the context that it was rendered in. -/
def Bundle.place (b : Bundle) : Node × Context := (b.node, b.context)

def placesOf (renderer : Renderer) (d : Document) (config : Config) : List (Node × Context) :=
  (callsOf renderer d config).map fun call => call.bundle.place

/-- The context that the root of a document is in. -/
def Config.outermost (config : Config) : Context := { width := config.containerWidth }

/-- The context of the children of a body: it has the width and the background of the body, or else
the width that the body has itself and no background. -/
structure Context.IsBelow (inner : Context) (body : Bundle) : Prop where
  width : (body.attributes.value? "width" = none ∧ inner.width = body.context.width) ∨
    ∃ w, body.attributes.value? "width" = some (.length (.px w)) ∧ inner.width = w
  background : inner.background = body.attributes.raw? "background-color"

variable {s : Setup} {context : Context} {n : Node} {c : Component} {rendered : List Rendered}
  {r : Rendered}

/-- A width that is set is handed on, whatever it is, since it cannot be but in pixels. -/
theorem Context.width_inside (context : Context) (defaults own : Table String) :
    let attributes := Resolution.resolve .body defaults own
    (attributes.value? "width" = none ∧ (context.inside .body attributes).width = context.width) ∨
      ∃ w, attributes.value? "width" = some (.length (.px w)) ∧
        (context.inside .body attributes).width = w := by
  intro attributes
  have width : (context.inside .body attributes).width =
      (ownWidth? attributes).getD context.width := rfl
  rw [width, ownWidth?]
  cases isSet : attributes.value? "width" with
  | none => exact .inl ⟨rfl, rfl⟩
  | some value =>
    obtain ⟨w, rfl⟩ := Resolution.exists_px_of_value? isSet
    exact .inr ⟨w, rfl, rfl⟩

private theorem Setup.inner_isBelow (s : Setup) (n : Node) (bare : context.background = none) :
    (s.inner context .body n).IsBelow (s.bundle context .body n) where
  width := Context.width_inside context _ _
  background := by
    have background : (s.inner context .body n).background =
        ((s.bundle context .body n).attributes.raw? "background-color").or context.background :=
      rfl
    rw [background, bare, Option.or_none]

/-- A block is the only thing to render in its place. -/
theorem Visited.due_of_block (visited : Visited s context n c rendered r) (block : c ≠ .body) :
    s.due context n = [s.bundle context c n] := by
  rw [s.due_of_known context visited.known, visited.childless block]
  rfl

/-- The children of a node that is visited are rendered in the context that the node hands to them,
each in its turn, and then the node itself. -/
theorem Visited.places_due (visited : Visited s context n c rendered r) :
    (s.due context n).map Bundle.place =
      n.children.map (·, s.inner context c n) ++ [(n, context)] := by
  have children : n.children.flatMap (fun child =>
      (s.due (s.inner context c n) child).map Bundle.place) =
        n.children.map (·, s.inner context c n) := by
    rw [List.map_eq_flatMap]
    refine List.flatMap_congr fun child member => ?_
    obtain ⟨_, succeeds⟩ := visited.child_succeeds member
    obtain ⟨d, _, below⟩ := visited_of_ok succeeds
    obtain ⟨-, inside, known, block⟩ := visited.child_isBlock member
    cases below.known.symm.trans known
    rw [below.due_of_block block]
    rfl
  rw [s.due_of_known context visited.known, s.allDue_eq_flatMap, List.map_append, List.map_flatMap,
    children]
  rfl

/-- The bundles of a compilation end with that of the root. -/
theorem Visited.last_due (visited : Visited s context n c rendered r) :
    (s.due context n).getLast? = some (s.bundle context c n) := by
  rw [s.due_of_known context visited.known]
  exact List.getLast?_concat

variable {renderer : Renderer} {d : Document} {config : Config} {out : Output}

/-- A compilation that succeeds is a visit that succeeds, and has called for all that was due. -/
theorem exists_visited_of_compileWith (compiles : compileWith renderer d config = .ok out) :
    ∃ c rendered r, Visited (setup renderer d config) config.outermost d.body c rendered r ∧
      out = output d config (visitBody renderer d config).events r ∧
      (callsOf renderer d config).map Call.bundle =
        (setup renderer d config).due config.outermost d.body := by
  obtain ⟨r, succeeds, same⟩ := FirstFailure.map_eq_ok_iff.mp compiles
  obtain ⟨c, rendered, visited⟩ := visited_of_ok succeeds
  exact ⟨c, rendered, r, visited, same.symm, (meets_visit d.body _).2 r succeeds⟩

private theorem Visited.placesOf_eq {c : Component} {inner : Context}
    (visited : Visited (setup renderer d config) config.outermost d.body c rendered r)
    (called : (callsOf renderer d config).map Call.bundle =
      (setup renderer d config).due config.outermost d.body)
    (inside : (setup renderer d config).inner config.outermost c d.body = inner) :
    placesOf renderer d config =
      d.body.children.map (·, inner) ++ [(d.body, config.outermost)] := by
  rw [← inside, ← visited.places_due, ← called, List.map_map]
  rfl

/-- The roots of two documents are alike, and so are the defaults of their heads. -/
structure Document.HasSameRoot (d other : Document) : Prop where
  tag : d.body.tag = other.body.tag
  attributes : d.body.attributes = other.body.attributes
  defaults : d.head.defaults = other.head.defaults

/-- The attributes of a root do not depend on the renderer, the rest of the head or what is in the
root. -/
theorem Document.HasSameRoot.attributes_bundle {d other : Document} {config config' : Config}
    (same : other.HasSameRoot d) (defaults : config'.defaults = config.defaults)
    (renderer renderer' : Renderer) (c : Component) :
    ((setup renderer' other config').bundle config'.outermost c other.body).attributes =
      ((setup renderer d config).bundle config.outermost c d.body).attributes := by
  simp only [Setup.bundle, Bundle.ofNode, setup, Node.classes, same.attributes, same.defaults,
    defaults]

/-- In a document that compiles, the root has the context of the settings, and the children of a
body all have the one context that the attributes of the body make. It is the same in every other
compilation, whatever is in the body there. The background that is announced is that of this
context, and there is none if the root is not a body. -/
theorem compileWith_contexts_flow_down (compiles : compileWith renderer d config = .ok out) :
    ∃ root : Bundle, (callsOf renderer d config).getLast?.map Call.bundle = some root ∧
      root.node = d.body ∧ Component.ofTag? d.body.tag = some root.component ∧
      root.context = { width := config.containerWidth, background := none } ∧
      (root.component = .body → ∃ inner : Context, inner.IsBelow root ∧
        placesOf renderer d config = d.body.children.map (·, inner) ++ [(d.body, root.context)] ∧
        out.background = inner.background ∧
        ∀ renderer' d' config' out', d'.HasSameRoot d → config'.defaults = config.defaults →
          config'.containerWidth = config.containerWidth →
          compileWith renderer' d' config' = .ok out' →
            placesOf renderer' d' config' =
              d'.body.children.map (·, inner) ++ [(d'.body, root.context)] ∧
            out'.background = out.background) ∧
      (root.component ≠ .body →
        placesOf renderer d config = [(d.body, root.context)] ∧ out.background = none) := by
  obtain ⟨c, rendered, r, visited, rfl, called⟩ := exists_visited_of_compileWith compiles
  have background := visited.background_eq
  refine ⟨(setup renderer d config).bundle config.outermost c d.body, ?_, rfl, visited.known, rfl,
    ?_, ?_⟩
  · rw [← List.getLast?_map, called, visited.last_due]
  · intro (isBody : c = .body)
    subst isBody
    have below : ((setup renderer d config).inner config.outermost .body d.body).IsBelow _ :=
      (setup renderer d config).inner_isBelow d.body rfl
    refine ⟨_, below, visited.placesOf_eq called rfl, ?_, ?_⟩
    · rw [below.background]
      exact background
    · intro renderer' d' config' out' same defaults width compiles'
      obtain ⟨c', _, _, visited', rfl, called'⟩ := exists_visited_of_compileWith compiles'
      have known := visited.known
      rw [← same.tag, visited'.known] at known
      cases known
      have attributes := same.attributes_bundle defaults renderer renderer' .body
      have outermost : config'.outermost = config.outermost := congrArg (Context.mk · none) width
      have inside : (setup renderer' d' config').inner config'.outermost .body d'.body =
          (setup renderer d config).inner config.outermost .body d.body := by
        rw [Setup.inner, Setup.inner, attributes, outermost]
      refine ⟨?_, ?_⟩
      · rw [visited'.placesOf_eq called' inside, outermost]
        rfl
      · have announced := visited'.background_eq
        rw [if_pos rfl, attributes] at announced
        rw [if_pos rfl] at background
        exact announced.trans background.symm
  · intro (block : c ≠ .body)
    rw [if_neg block] at background
    refine ⟨?_, background⟩
    rw [visited.placesOf_eq called rfl, visited.childless block]
    rfl

/-- Neither the width nor the background of a badge between two raw blocks reaches them. -/
theorem compileWith_contexts_flow_down_siblings :
    let raw : Node := { tag := "mj-raw", content := "<hr/>" }
    let badge : Node :=
      { tag := "mj-badge",
        attributes := .ofList [("width", "120px"), ("background-color", "#ff0000")] }
    let body : Node :=
      { tag := "mj-body", attributes := .ofList [("width", "0"), ("background-color", " #f0f0f0 ")],
        children := [raw, badge, raw] }
    ∃ out inner, compileWith Template.standard ⟨{}, body⟩ {} = .ok out ∧
      placesOf Template.standard ⟨{}, body⟩ {} =
        [(raw, inner), (badge, inner), (raw, inner), (body, { width := 600 })] ∧
      inner.widthText = "0px" ∧ inner.background = some "#f0f0f0" ∧
      out.background = some "#f0f0f0" := by
  intro raw badge body
  have seen : (compileWith Template.standard ⟨{}, body⟩ {}).toOption.isSome = true ∧
      (placesOf Template.standard ⟨{}, body⟩ {}).map
        (fun place => (place.2.widthText, place.2.background)) =
          [("0px", some "#f0f0f0"), ("0px", some "#f0f0f0"), ("0px", some "#f0f0f0"),
            ("600px", none)] := by
    decide +kernel
  cases compiles : compileWith Template.standard ⟨{}, body⟩ {} with
  | error p =>
    rw [compiles] at seen
    cases seen.1
  | ok out =>
    obtain ⟨root, -, -, known, outermost, below, -⟩ := compileWith_contexts_flow_down compiles
    obtain ⟨inner, -, places, background, -⟩ := below (Option.some.inj known).symm
    rw [outermost] at places
    rw [places] at seen
    have first : (inner.widthText, inner.background) = ("0px", some "#f0f0f0") :=
      (List.cons.inj seen.2).1
    obtain ⟨width, color⟩ := Prod.mk.inj first
    exact ⟨out, inner, rfl, places, width, color, background.trans color⟩

end MailMarkup
