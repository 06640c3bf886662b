import MailMarkup.Config.Yaml
import MailMarkup.Proofs.AdmittedLengths
import MailMarkup.Proofs.DecimalText
import MailMarkup.Proofs.DoubleRange
import MailMarkup.Proofs.RendererProtocol
import MailMarkup.Proofs.Runs

/-!
# Widths stay finite

Lengths are read from digits of any number, so a long one reads as infinity, although settings from
a file are held to finite widths. Short of that widths stay finite: if the numbers that the layout
reads lie between `-1e300` and `1e300`, every context has a width that is finite and not negative,
and every content width is finite and reported if it is negative.
-/
namespace MailMarkup
open Double Decimal

private theorem LengthRule.not_negative_of_admit? {rule : LengthRule} {l admitted : Length}
    (unsigned : rule.signed = false) (h : rule.admit? l = some admitted) : ¬ admitted.value < 0 := by
  unfold admit? at h
  split at h
  · cases h
  · next accepted =>
    have notNegative : ¬ l.value < 0 := fun negative => accepted ⟨negative, unsigned⟩
    split at h
    · cases h
      exact notNegative
    · split at h
      · cases h
        exact notNegative
      · cases h

/-- A length of an unsigned rule is never less than zero. -/
theorem LengthRule.not_negative_of_read? {rule : LengthRule} {s : String} {l : Length}
    (unsigned : rule.signed = false) (h : rule.read? s = some (.length l)) : ¬ l.value < 0 := by
  obtain ⟨found, admitted⟩ := exists_admitted_of_read? h
  exact not_negative_of_admit? unsigned admitted

/-- The width that a body sets for its children is not less than zero. -/
theorem Context.not_negative_of_ownWidth? {defaults own : Table String} {w : Float}
    (h : ownWidth? (.resolve .body defaults own) = some w) : ¬ w < 0 := by
  unfold ownWidth? at h
  split at h
  · next value isSet =>
    cases h
    obtain ⟨text, read⟩ := Resolution.exists_width_text_of_value? isSet
    have notNegative := LengthRule.not_negative_of_read? rfl read
    exact notNegative
  · cases h

variable {cs : List Char}

/-- Digits before `px` are a length, however many there are. -/
theorem Length.read?_px (digits : ∀ c ∈ cs, c.isDigit = true) (nonempty : cs ≠ []) :
    Length.read? (String.ofList (cs ++ ['p', 'x'])) = some ⟨numeral false cs [], .px⟩ := by
  have magnitude : readMagnitude false (cs ++ ['p', 'x']) = some ⟨numeral false cs [], .px⟩ := by
    have run : IsRun Char.isDigit cs ['p', 'x'] := ⟨digits, by decide⟩
    simp only [readMagnitude, digitRun_eq run, readFraction, nonempty, false_and, if_false]
    rfl
  rw [read?, String.toList_ofList, ← magnitude]
  cases cs with
  | nil => exact absurd rfl nonempty
  | cons c rest =>
    have digit := digits c List.mem_cons_self
    split
    · next minus =>
      cases minus
      cases digit
    · rfl

/-- A width of digits is set to the number that they are read as. -/
theorem Value.read?_px (digits : ∀ c ∈ cs, c.isDigit = true) (nonempty : cs ≠ [])
    (notNegative : ¬ numeral false cs [] < 0) :
    Value.read? (.length Component.px) (Text.trimmed (String.ofList (cs ++ ['p', 'x']))) =
      some (.length ⟨numeral false cs [], .px⟩) := by
  have solid : ∀ c ∈ cs ++ ['p', 'x'], Text.isBlank c = false := by
    rw [List.forall_mem_append]
    exact ⟨fun c member => Text.isBlank_of_isDigit (digits c member), by simp [Text.isBlank]⟩
  have word : Text.wordsOf (String.ofList (cs ++ ['p', 'x'])) =
      [String.ofList (cs ++ ['p', 'x'])] := by
    rw [Text.wordsOf, String.toList_ofList, Text.words_of_solid solid (by simp)]
    rfl
  have length := Length.read?_px digits nonempty
  have admitted : LengthRule.admit? ⟨Component.px, false, 1, 1⟩ ⟨numeral false cs [], .px⟩ =
      some ⟨numeral false cs [], .px⟩ := by
    rw [LengthRule.admit?, if_neg fun negative => notNegative negative.1]
    rfl
  rw [Text.trimmed, String.toList_ofList, Text.trim_of_solid solid]
  generalize String.ofList (cs ++ ['p', 'x']) = s at word length ⊢
  have all : LengthRule.readAll? ⟨Component.px, false, 1, 1⟩ (Text.wordsOf s) =
      some [⟨numeral false cs [], .px⟩] := by
    simp [word, LengthRule.readAll?, length, admitted]
  exact Option.bind_eq_some_iff.mpr ⟨_, all, rfl⟩

/-- The width that a body sets in digits is handed to its children, however large it is. -/
theorem Context.ownWidth?_px {defaults own : Table String}
    (given : own.get? "width" = some (String.ofList (cs ++ ['p', 'x'])))
    (digits : ∀ c ∈ cs, c.isDigit = true) (nonempty : cs ≠ [])
    (notNegative : ¬ numeral false cs [] < 0) :
    ownWidth? (.resolve .body defaults own) = some (numeral false cs []) := by
  have solid : Text.isBlankText (String.ofList (cs ++ ['p', 'x'])) = false := by
    rw [Text.isBlankText, String.toList_ofList, List.all_append]
    exact Bool.and_eq_false_iff.mpr (.inr (by decide))
  have picked : pick? Component.body.schema defaults own "width" =
      some (String.ofList (cs ++ ['p', 'x'])) := by
    rw [pick?, given, nonblank, Option.filter_some_pos (by rw [solid]; rfl)]
    rfl
  have isWidth : Component.body.typeOf? "width" = some (.length Component.px) := by decide
  have isSet : (Resolution.resolve .body defaults own).value? "width" =
      some (.length ⟨numeral false cs [], .px⟩) := by
    rw [Resolution.value?, Resolution.get?_settings, isWidth, Option.bind_some, picked,
      Option.bind_some, setting?, Value.ofRaw, Value.read?_px digits nonempty notNegative]
    rfl
  rw [ownWidth?, isSet]

/-- The numbers that the layout of a node reads. -/
def Bundle.numbers (b : Bundle) : List Float :=
  let padding := Sides.ofAttribute b.attributes "inner-padding"
  let border := Border.ofAttributes b.attributes
  match b.component with
  | .body => (Context.ownWidth? b.attributes).toList
  | .badge =>
    ((b.attributes.raw? "width").bind declaredWidth?).toList.map Length.value ++
      [padding.left, padding.right, border.thickness border.left, border.thickness border.right]
  | .raw => []

def Bundle.IsModerate (b : Bundle) : Prop := ∀ x ∈ b.numbers, Double.IsModerate x

instance (x : Float) : Decidable (Double.IsModerate x) := inferInstanceAs (Decidable (_ ∧ _))

instance (b : Bundle) : Decidable b.IsModerate :=
  inferInstanceAs (Decidable (∀ x ∈ b.numbers, Double.IsModerate x))

/-- A width less two sums of moderate numbers is finite. -/
theorem Double.isFinite_sub_sums {width a b c d : Float} (hw : IsModerate width)
    (ha : IsModerate a) (hb : IsModerate b) (hc : IsModerate c) (hd : IsModerate d) :
    (width - (a + b) - (c + d)).isFinite = true := by
  have padding : Reaches 946 (a + b) := ha.reaches.add hb.reaches (by decide) (by decide)
  have border : Reaches 946 (c + d) := hc.reaches.add hd.reaches (by decide) (by decide)
  have inside : Reaches 948 (width - (a + b)) :=
    Reaches.sub (hw.reaches.mono (by decide)) padding (by decide) (by decide)
  exact (inside.sub (border.mono (by decide)) (by decide) (by decide)).isFinite

theorem isFinite_innerWidth {width : Option String} {border : Border} {padding : Sides} {w : Float}
    (declared : ∀ l, width.bind declaredWidth? = some l → IsModerate l.value)
    (sides : IsModerate padding.left ∧ IsModerate padding.right)
    (borders : IsModerate (border.thickness border.left) ∧
      IsModerate (border.thickness border.right))
    (h : innerWidth width border padding = some w) : w.isFinite = true := by
  unfold innerWidth Sides.horizontal Border.horizontal at h
  split at h
  · next value found =>
    rw [← Option.some.inj h]
    have finite := isFinite_sub_sums (declared _ found) sides.1 sides.2 borders.1 borders.2
    exact finite
  · cases h

/-- The content width of a node whose numbers are moderate is finite. -/
theorem Bundle.isFinite_contentWidth {c : Component} {n : Node} {defaults : Table String}
    {context : Context} {w : Float} (moderate : (Bundle.ofNode c n defaults context).IsModerate)
    (h : (Bundle.ofNode c n defaults context).contentWidth = some w) : w.isFinite = true := by
  cases c with
  | body => cases h
  | raw => cases h
  | badge =>
    unfold IsModerate numbers at moderate
    simp only [Bundle.ofNode, List.forall_mem_append, List.forall_mem_map, Option.mem_toList,
      List.forall_mem_cons] at moderate
    obtain ⟨declared, left, right, leftBorder, rightBorder, -⟩ := moderate
    exact isFinite_innerWidth declared ⟨left, right⟩ ⟨leftBorder, rightBorder⟩ h

variable {s : Setup}

/-- What holds of a context, and of the context that a node of moderate numbers hands on whenever it
holds of its own, holds of the context of every bundle of a tree. -/
theorem exists_context_of_due {P : Context → Prop}
    (step : ∀ context c n, P context → (s.bundle context c n).IsModerate →
      P (s.inner context c n))
    (n : Node) {context : Context} (start : P context)
    (moderate : ∀ b ∈ s.due context n, b.IsModerate) :
    ∀ b ∈ s.due context n, ∃ context c n, P context ∧ b = s.bundle context c n := by
  induction n using Node.childInduction generalizing context with
  | step n ih =>
    cases known : Component.ofTag? n.tag with
    | none => simp [s.due_of_unknown context known]
    | some c =>
      rw [s.due_of_known context known, s.allDue_eq_flatMap, List.forall_mem_append,
        List.forall_mem_singleton] at moderate ⊢
      obtain ⟨below, here⟩ := moderate
      refine ⟨fun b due => ?_, context, c, n, start, rfl⟩
      obtain ⟨child, member, due⟩ := List.mem_flatMap.mp due
      exact ih child member (step context c n start here)
        (fun b due => below b (List.mem_flatMap.mpr ⟨child, member, due⟩)) b due

/-- A width that is finite and not negative. -/
def Context.IsSound (context : Context) : Prop :=
  context.width.isFinite = true ∧ 0 ≤ context.width

/-- A node of moderate numbers hands on a sound context if it has one. -/
theorem Context.IsSound.inner {context : Context} {c : Component} {n : Node}
    (sound : context.IsSound) (moderate : (s.bundle context c n).IsModerate) :
    (s.inner context c n).IsSound := by
  cases c with
  | badge => exact sound
  | raw => exact sound
  | body =>
    cases own : ownWidth? (s.bundle context .body n).attributes with
    | none =>
      have width : (s.inner context .body n).width = context.width :=
        congrArg (·.getD context.width) own
      rwa [IsSound, width]
    | some w =>
      have width : (s.inner context .body n).width = w := congrArg (·.getD context.width) own
      have read : w ∈ (s.bundle context .body n).numbers := Option.mem_toList.mpr own
      have finite := (moderate w read).reaches.isFinite
      rw [IsSound, width]
      refine ⟨finite, ?_⟩
      by_contra negative
      exact not_negative_of_ownWidth? own (lt_zero_of_isFinite finite negative)

private theorem Setup.width_inner_px (s : Setup) (context : Context) {n : Node}
    (given : n.attributes.get? "width" = some (String.ofList (cs ++ ['p', 'x'])))
    (digits : ∀ c ∈ cs, c.isDigit = true) (nonempty : cs ≠ [])
    (notNegative : ¬ numeral false cs [] < 0) :
    (s.inner context .body n).width = numeral false cs [] := by
  have own : Context.ownWidth? (s.bundle context .body n).attributes =
      some (numeral false cs []) := Context.ownWidth?_px given digits nonempty notNegative
  exact congrArg (·.getD context.width) own

/-- A call among those for several nodes is one for one of them, and what its visit leaves stays. -/
theorem exists_visit_of_call {ns : List Node} {context : Context} {call : Call}
    (made : call ∈ Events.calls (visitAll s context ns).events) :
    ∃ n ∈ ns, call ∈ Events.calls (visit s context n).events ∧
      (visit s context n).events ⊆ (visitAll s context ns).events := by
  induction ns with
  | nil => cases made
  | cons n rest ih =>
    rw [calls_visitAll_cons, List.mem_append] at made
    rw [events_visitAll_cons]
    rcases made with here | below
    · exact ⟨n, List.mem_cons_self, here, List.subset_append_left _ _⟩
    · cases outcome : (visit s context n).outcome with
      | error problem =>
        rw [outcome] at below
        cases below
      | ok first =>
        rw [outcome] at below
        obtain ⟨other, member, made, subset⟩ := ih below
        exact ⟨other, List.mem_cons_of_mem n member, made,
          List.subset_append_of_subset_right _ subset⟩

theorem Setup.overfull_mem_opening {context : Context} {c : Component} {n : Node} {w : Float}
    (width : (s.bundle context c n).contentWidth = some w) (negative : w < 0) :
    .overfull c w ∈ s.opening context c n := by
  refine List.mem_append_right _ (List.mem_map.mpr ⟨w, ?_, rfl⟩)
  simp [width, Option.filter, negative]

/-- A negative content width is reported before the renderer is called for the node. -/
theorem overfull_of_call (n : Node) (context : Context) {call : Call}
    (made : call ∈ Events.calls (visit s context n).events) {w : Float}
    (width : call.bundle.contentWidth = some w) (negative : w < 0) :
    .overfull call.bundle.component w ∈ (visit s context n).events := by
  induction n using Node.childInduction generalizing context with
  | step n ih =>
    cases known : Component.ofTag? n.tag with
    | none =>
      rw [calls_of_unknown s context known] at made
      cases made
    | some c =>
      cases placed : misplaced? c n.children with
      | some problem =>
        rw [calls_of_misplaced s context known placed] at made
        cases made
      | none =>
        rw [calls_of_placed s context known placed, List.mem_append] at made
        rw [events_of_placed s context known placed, List.mem_append]
        rcases made with below | here
        · obtain ⟨child, member, made, subset⟩ := exists_visit_of_call below
          have reported := subset (ih child member _ made)
          exact .inr (List.mem_cons_of_mem _ (List.mem_append_left _ reported))
        · cases visits : (visitAll s (s.inner context c n) n.children).outcome with
          | error problem =>
            rw [visits] at here
            cases here
          | ok rendered =>
            rw [visits] at here
            cases List.mem_singleton.mp here
            exact .inl (Setup.overfull_mem_opening width negative)

/-- A length in pixels written with digits, a point and a minus sign. -/
def IsPlainLength (s : String) : Prop :=
  ∃ number, s = number ++ "px" ∧ ∀ c ∈ number.toList, IsNumeric c

private theorem isPlainLength_px {w : Float} (finite : w.isFinite = true) :
    IsPlainLength (Length.px w).text :=
  ⟨text w, rfl, fun _ => isNumeric_of_mem_text finite⟩

theorem Config.isSound_of_ofYaml {yaml : String} {config : Config}
    (accepted : ofYaml yaml = .ok config) :
    Context.IsSound { width := config.containerWidth } := by
  unfold ofYaml at accepted
  split at accepted
  · unfold checked at accepted
    split at accepted
    · next bounds =>
      cases accepted
      exact ⟨bounds.1, le_of_float_lt bounds.2⟩
    · cases accepted
  · cases accepted

/-- If the numbers that the layout reads are moderate, the renderer is given finite widths only, which
are written without letters, and a content width that is not at least zero is reported. -/
theorem compileWith_widths_finite {yaml : String} {config : Config}
    (accepted : Config.ofYaml yaml = .ok config) (renderer : Renderer) (d : Document)
    (moderate : ∀ b ∈ bundlesOf renderer d config, b.IsModerate) :
    ∀ call ∈ callsOf renderer d config,
      call.bundle.context.width.isFinite = true ∧ 0 ≤ call.bundle.context.width ∧
      IsPlainLength call.bundle.context.widthText ∧
      (∀ c ∈ (wholeText call.bundle.context.width).toList, IsNumeric c) ∧
      ∀ w, call.bundle.contentWidth = some w →
        w.isFinite = true ∧ IsPlainLength (Length.px w).text ∧
        (¬ 0 ≤ w → .impossibleBox call.bundle.component.tag w ∈
          Events.diagnostics (visitBody renderer d config).events) := by
  intro call made
  have due := bundle_mem_due made
  obtain ⟨context, c, n, ⟨finite, notNegative⟩, bundle⟩ :=
    exists_context_of_due (fun _ _ _ => Context.IsSound.inner) d.body
      (Config.isSound_of_ofYaml accepted) moderate call.bundle due
  have numbers := moderate call.bundle due
  have width : call.bundle.context.width = context.width := by
    rw [bundle]
    rfl
  rw [Context.widthText, width]
  refine ⟨finite, notNegative, isPlainLength_px finite, fun _ => isNumeric_of_mem_wholeText finite,
    fun w contentWidth => ?_⟩
  have contentFinite : w.isFinite = true := by
    rw [bundle] at numbers contentWidth
    exact Bundle.isFinite_contentWidth numbers contentWidth
  refine ⟨contentFinite, isPlainLength_px contentFinite, fun negative => ?_⟩
  have reported := overfull_of_call d.body _ made contentWidth
    (lt_zero_of_isFinite contentFinite negative)
  exact List.mem_filterMap.mpr ⟨_, reported, rfl⟩

/-- A badge of 20px with paddings of 15px and the default border is reported. -/
theorem compileWith_widths_finite_narrow :
    let badge : Node :=
      { tag := "mj-badge", attributes := .ofList [("width", "20px"), ("inner-padding", "15px")] }
    let d : Document := ⟨{}, { tag := "mj-body", children := [badge] }⟩
    ∃ config, Config.ofYaml "container_width: 320" = .ok config ∧
      (∀ b ∈ bundlesOf Template.standard d config, b.IsModerate) ∧
      ∃ call ∈ callsOf Template.standard d config, IsPlainLength call.bundle.context.widthText ∧
        ∃ w, call.bundle.contentWidth = some w ∧ w.isFinite = true ∧
          .impossibleBox "mj-badge" w ∈
            Events.diagnostics (visitBody Template.standard d config).events := by
  intro badge d
  have given : (Config.ofYaml "container_width: 320").toOption.any (fun config =>
      decide (∀ b ∈ bundlesOf Template.standard d config, b.IsModerate) &&
        (callsOf Template.standard d config).any fun call =>
          decide (call.bundle.component = .badge) &&
            call.bundle.contentWidth.any fun w => decide (¬ 0 ≤ w)) = true := by
    decide +kernel
  cases accepted : Config.ofYaml "container_width: 320" with
  | error p =>
    rw [accepted] at given
    cases given
  | ok config =>
    rw [accepted, Except.toOption, Option.any_some, Bool.and_eq_true, decide_eq_true_iff,
      List.any_eq_true] at given
    obtain ⟨moderate, call, made, given⟩ := given
    rw [Bool.and_eq_true, decide_eq_true_iff, Option.any_eq_true] at given
    obtain ⟨isBadge, w, width, negative⟩ := given
    obtain ⟨-, -, plain, -, content⟩ :=
      compileWith_widths_finite accepted Template.standard d moderate call made
    obtain ⟨finite, -, reported⟩ := content w width
    have box := reported (of_decide_eq_true negative)
    rw [isBadge] at box
    exact ⟨config, rfl, moderate, call, made, plain, w, width, finite, box⟩

/-- Four hundred digits are read as infinity, which is handed to the badge and written into its
Outlook cell, although settings may not have such a width. -/
theorem compileWith_widths_finite_long :
    let long := String.ofList (List.replicate 400 '9' ++ ['p', 'x'])
    let badge : Node := { tag := "mj-badge" }
    let d : Document := ⟨{}, ⟨"mj-body", .ofList [("width", long)], "", [badge]⟩⟩
    ∃ config, Config.ofYaml "{}" = .ok config ∧ ∃ call ∈ callsOf Template.standard d config,
      call.bundle.context.width.isFinite = false ∧ call.bundle.context.widthText = "infpx" := by
  intro long badge d
  cases accepted : Config.ofYaml "{}" with
  | error p =>
    have given : (Config.ofYaml "{}").toOption.isSome = true := by decide +kernel
    rw [accepted] at given
    cases given
  | ok config =>
    let s := setup Template.standard d config
    let root : Context := { width := config.containerWidth }
    let inner := s.inner root .body d.body
    obtain ⟨r, succeeds⟩ : ∃ r, (visit s root d.body).outcome = .ok r := by
      rw [visit_succeeds_iff Template.standard_isTotal]
      refine .inr ⟨rfl, ?_⟩
      simp [d, badge, Node.outline, outlines, Outline.IsBlock]
    have due : s.bundle inner .badge badge ∈ s.due root d.body := by
      have isDue : s.bundle inner .badge badge ∈ s.due inner badge := by
        rw [s.due_of_known inner (c := .badge) rfl]
        exact List.mem_append_right _ List.mem_cons_self
      rw [s.due_of_known root (c := .body) rfl, s.allDue_eq_flatMap]
      exact List.mem_append_left _ (List.mem_flatMap.mpr ⟨badge, List.mem_cons_self, isDue⟩)
    rw [← (meets_visit d.body root).2 r succeeds] at due
    obtain ⟨call, made, bundle⟩ := List.mem_map.mp due
    have width : inner.width = numeral false (List.replicate 400 '9') [] := by
      refine s.width_inner_px root ?_ (fun c member => ?_) (List.cons_ne_nil _ _)
        (by decide +kernel)
      · exact Table.get?_ofList (by simp) "width"
      · rw [List.eq_of_mem_replicate member]
        rfl
    have context : call.bundle.context = inner := by
      rw [bundle]
      rfl
    refine ⟨config, rfl, call, made, ?_⟩
    rw [Context.widthText, context, width]
    constructor <;> decide +kernel

end MailMarkup
