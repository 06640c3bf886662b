import MailMarkup.Proofs.BodyComposition
import MailMarkup.Proofs.CalmTemplates
import MailMarkup.Proofs.PieceReadings

/-!
# Templates are well nested for all clients

What the start of a template opens its end closes, for each client. Between start and end of a body
stand the fragments of its children, and a fragment leaves open what was open before it, wrapped or
not.
-/
namespace MailMarkup
open Markup

/-- No text that is written of the bundle has a conditional mark. -/
structure Bundle.IsCalm (b : Bundle) : Prop where
  texts : ∀ name, IsCalmValue (b.attributes.raw? name)
  styles : ∀ name, Markup.IsCalm (b.styles.css name).toList

theorem Bundle.isCalm_ofNode {c : Component} {n : Node} {defaults : Table String}
    (ofDefaults : ∀ name, ∀ text ∈ defaults.get? name, IsUncommented text)
    (ofOwn : ∀ name, ∀ text ∈ n.attributes.get? name, IsUncommented text) (context : Context) :
    (Bundle.ofNode c n defaults context).IsCalm :=
  have texts := Resolution.isCalmValue_raw? (c := c) ofDefaults ofOwn
  ⟨texts, Buckets.isCalm_ofComponent texts c context⟩

theorem Outlook.isCalm_attributes {r : Resolution} (calm : ∀ name, IsCalmValue (r.raw? name))
    (c : Component) (context : Context) :
    ∀ a ∈ (Wrap.ofNode c r context).attributes, IsName a.1 ∧ IsCalmValue a.2 := by
  have width : IsCalm context.widthText.toList :=
    isCalm_of_hasNoAngle (Length.hasNoAngle_text_px context.width)
  unfold Wrap.ofNode
  split
  · exact List.forall_mem_nil _
  · simp [IsName, calm, isCalmValue_outlookClass calm, width]

namespace Template

section Calm

variable {b : Bundle} (calm : b.IsCalm)
include calm

private theorem isCalm_outlookColumn : (outlookColumn b).IsCalm := by
  have declared : IsCalm ("width:" ++ b.context.widthText ++ ";").toList := by
    refine .of_no_angle ?_
    have before : HasNoAngle "width:" := by simp [HasNoAngle]
    have after : HasNoAngle ";" := by simp [HasNoAngle]
    rw [String.toList_append, String.toList_append, List.forall_mem_append, List.forall_mem_append]
    exact ⟨⟨before, Length.hasNoAngle_text_px b.context.width⟩, after⟩
  have whole : IsCalm (Decimal.wholeText b.context.width).toList :=
    isCalm_of_hasNoAngle (Decimal.hasNoAngle_wholeText b.context.width)
  simp [outlookColumn, layoutTable, IsName, voidNames, IsCalm.of_no_angle,
    isCalmValue_outlookClass calm.texts, ↓declared, whole]

private theorem isCalm_columnStart : ∀ p ∈ columnStart b, p.IsCalm := by
  simp [columnStart, outlookRows, layoutTable, presentation, IsName, voidNames,
    IsCalm.of_no_angle, calm.texts, calm.styles]

private theorem isCalm_bodyStart : ∀ p ∈ bodyStart b, p.IsCalm := by
  have centered : ∀ p ∈ centeredStart b, p.IsCalm := by
    rw [centeredStart, List.forall_mem_append]
    exact ⟨by simp [isCalm_outlookColumn calm], isCalm_columnStart calm⟩
  unfold bodyStart
  split
  · rw [List.forall_mem_append]
    refine ⟨?_, centered⟩
    simp [layoutTable, presentation, IsName, voidNames, IsCalm.of_no_angle, calm.texts,
      calm.styles]
  · exact centered

end Calm

private theorem isCalm_bodyEnd (b : Bundle) : ∀ p ∈ bodyEnd b, p.IsCalm := by
  have centered : ∀ p ∈ centeredEnd, p.IsCalm := by
    simp [centeredEnd, columnEnd, outlookColumnEnd, IsName]
  unfold bodyEnd
  split
  · rw [List.forall_mem_append]
    refine ⟨centered, ?_⟩
    simp [IsName]
  · exact centered

/-- The end of a body closes what its start opens. -/
theorem exists_settle_body (b : Bundle) (client : Client) (around : Unclosed) :
    ∃ unclosed, (bodyStart b).foldlM (Piece.settle client) around = some unclosed ∧
      (bodyEnd b).foldlM (Piece.settle client) unclosed = some around := by
  unfold bodyStart bodyEnd
  split
  · cases client <;> exact ⟨_, rfl, by rfl⟩
  · cases client <;> exact ⟨_, rfl, by rfl⟩

private theorem bodyEnd_eq (b : Bundle) : bodyEnd b = .line :: (bodyEnd b).tail := by
  unfold bodyEnd
  split <;> rfl

/-- The markup of a badge up to its content. -/
def badgeStart (b : Bundle) : List Piece :=
  [.opening "table" (layoutTable [presentation, ("style", some (b.styles.css "table"))]), .line,
   .opening "tr" [], .line,
   .opening "td"
    [("align", some "center"), ("bgcolor", cellColor b.attributes), presentation,
     ("style", some (b.styles.css "td")), ("valign", b.attributes.raw? "vertical-align")], .line,
   .opening (labelTag b.attributes) (labelAttributes b), .line] ++ image b.attributes

/-- The markup of a badge after its content. -/
def badgeEnd (b : Bundle) : List Piece :=
  [.closing (labelTag b.attributes), .line, .closing "td", .line, .closing "tr", .line,
   .closing "table"]

private theorem badge_eq (b : Bundle) :
    badge b = badgeStart b ++ [.text (Text.trimmed b.node.content), .line] ++ badgeEnd b := by
  simp [badge, badgeStart, badgeEnd]

private theorem labelTag_eq (r : Resolution) : labelTag r = "a" ∨ labelTag r = "p" := by
  unfold labelTag
  split
  · exact .inl rfl
  · exact .inr rfl

private theorem isCalm_badgeStart {b : Bundle} (calm : b.IsCalm) :
    ∀ p ∈ badgeStart b, p.IsCalm := by
  have source : ∀ p ∈ image b.attributes, p.IsCalm := by
    unfold image
    split
    · next source isSet =>
      have calmSource := calm.texts _ source isSet
      simp [Piece.IsCalm, IsName, calmSource]
    · exact List.forall_mem_nil _
  have target :
      IsCalmValue ((b.attributes.raw? "href").bind fun _ => b.attributes.raw? "target") := by
    intro text isSet
    obtain ⟨_, -, isSet⟩ := Option.bind_eq_some_iff.mp isSet
    exact calm.texts _ text isSet
  have label : IsName (labelTag b.attributes) ∧ labelTag b.attributes ∉ voidNames := by
    rcases labelTag_eq b.attributes with same | same <;>
      simp [same, IsName, voidNames]
  rw [badgeStart, List.forall_mem_append]
  refine ⟨?_, source⟩
  simp [layoutTable, presentation, labelAttributes, ↓label, ↓target, IsName, voidNames,
    IsCalm.of_no_angle, calm.texts, calm.styles, isCalmValue_cellColor calm.texts]

private theorem isCalm_badgeEnd (b : Bundle) : ∀ p ∈ badgeEnd b, p.IsCalm := by
  rw [badgeEnd]
  rcases labelTag_eq b.attributes with same | same <;> simp [same, IsName]

private theorem exists_settle_badge (b : Bundle) (client : Client) (around : Unclosed) :
    ∃ unclosed, (badgeStart b).foldlM (Piece.settle client) around = some unclosed ∧
      (badgeEnd b).foldlM (Piece.settle client) unclosed = some around := by
  unfold badgeStart badgeEnd image
  rcases labelTag_eq b.attributes with same | same <;> rw [same] <;> split <;>
    exact ⟨_, rfl, by rfl⟩

end Template

section Nests

variable {client : Client} {unclosed : Unclosed}

/-- Texts that leave open what was open before them do so one under the other. -/
theorem carries_joined {texts : List String}
    (each : ∀ s ∈ texts, client.Carries (s.toList ++ ['\n']) unclosed unclosed) :
    client.Carries ((Text.joined "\n" texts).toList ++ ['\n']) unclosed unclosed := by
  induction texts with
  | nil => exact .line
  | cons s texts ih =>
    obtain ⟨here, below⟩ := List.forall_mem_cons.mp each
    cases texts with
    | nil => exact here
    | cons t rest =>
      have shape : (Text.joined "\n" (s :: t :: rest)).toList ++ ['\n'] =
          (s.toList ++ ['\n']) ++ ((Text.joined "\n" (t :: rest)).toList ++ ['\n']) := by
        simp [Text.joined]
      rw [shape]
      exact here.append (ih below)

/-- A body is well nested around markup that may stand in any element. -/
theorem nests_body {b : Bundle} (calm : b.IsCalm) {children : List Rendered}
    (inside : ∀ r ∈ children, ∀ unclosed,
      client.Carries (r.wrapped.toList ++ ['\n']) unclosed unclosed) :
    client.Nests (html (Template.body b children)) := by
  refine .of_carries fun unclosed => ?_
  obtain ⟨within, starts, ends⟩ := Template.exists_settle_body b client unclosed
  have calmEnd := Template.isCalm_bodyEnd b
  rw [Template.bodyEnd_eq] at ends calmEnd
  have shape : (html (Template.body b children)).toList =
      (html (Template.bodyStart b)).toList ++
        ((Text.joined "\n" (children.map Rendered.wrapped)).toList ++ ['\n']) ++
        (html (Template.bodyEnd b).tail).toList := by
    rw [Template.html_body, Template.bodyEnd_eq]
    simp [html, Piece.html, Piece.line]
  rw [shape]
  refine ((carries_html (Template.isCalm_bodyStart calm) starts).append (carries_joined ?_)).append
    (carries_html (List.forall_mem_cons.mp calmEnd).2 ends)
  exact List.forall_mem_map.mpr fun r member => inside r member within

/-- A badge is well nested around well nested content. -/
theorem nests_badge {b : Bundle} (calm : b.IsCalm) (content : IsUncommented b.node.content)
    (nested : IsWellNested b.node.content.toList) :
    client.Nests (html (Template.badge b)) := by
  refine .of_carries fun unclosed => ?_
  obtain ⟨within, starts, ends⟩ := Template.exists_settle_badge b client unclosed
  have trimmed : client.Nests (Text.trimmed b.node.content) := by
    refine .of_content ?_ content.isCalm_trimmed
    rw [Text.trimmed, String.toList_ofList]
    exact nested.trim
  have written : (html [.text (Text.trimmed b.node.content), .line]).toList =
      (Text.trimmed b.node.content).toList ++ ['\n'] := by
    simp [html, Piece.html, Piece.line]
  rw [Template.badge_eq, html_append, html_append, String.toList_append, String.toList_append,
    written]
  exact ((carries_html (Template.isCalm_badgeStart calm) starts).append
    (trimmed.within within)).append (carries_html (Template.isCalm_badgeEnd b) ends)

/-- A cell around a text closes what it opens, for the clients that see it. -/
theorem carries_around {w : Outlook.Wrap} {inner : String}
    (calm : ∀ a ∈ w.attributes, IsName a.1 ∧ IsCalmValue a.2)
    (inside : ∀ unclosed, client.Carries (inner.toList ++ ['\n']) unclosed unclosed) :
    client.Carries ((w.around inner).toList ++ ['\n']) unclosed unclosed := by
  cases needed : w.needed with
  | false =>
    have bare : w.around inner = inner := by simp [Outlook.Wrap.around, needed]
    rw [bare]
    exact inside unclosed
  | true =>
    have calmStart : ∀ p ∈ [Piece.outlook [.opening "tr" [], .opening "td" w.attributes], .line],
        p.IsCalm := by
      have row : (Tag.opening "tr" []).IsCalm := by simp [IsName, voidNames]
      have cell : (Tag.opening "td" w.attributes).IsCalm := ⟨by simp [IsName, voidNames], calm⟩
      simp [↓row, ↓cell]
    have calmStop : ∀ p ∈ [Piece.outlook [.closing "td", .closing "tr"]], p.IsCalm := by
      simp [IsName]
    have around : ∃ within, client.Carries w.start.toList unclosed within ∧
        client.Carries (html [.outlook [.closing "td", .closing "tr"]]).toList within unclosed := by
      cases client <;> exact ⟨_, carries_html calmStart rfl, carries_html calmStop (by rfl)⟩
    obtain ⟨within, starts, stops⟩ := around
    have shape : (w.around inner).toList ++ ['\n'] =
        w.start.toList ++ (inner.toList ++ ['\n']) ++
          (html [.outlook [.closing "td", .closing "tr"]]).toList ++ ['\n'] := by
      rw [Outlook.Wrap.around_of_needed needed, Outlook.Wrap.stop]
      simp [html, Piece.html, Piece.line]
    rw [shape]
    exact ((starts.append (inside within)).append stops).append .line

end Nests

end MailMarkup
