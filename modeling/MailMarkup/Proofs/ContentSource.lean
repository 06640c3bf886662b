import MailMarkup.Proofs.BlockExtents
import MailMarkup.Proofs.TextPieces
import MailMarkup.Proofs.TokenSource

/-!
# The source of contents

The content of a block is the source of the text between its tags, but not to its end if more than
one piece of text ends it: then the pieces after the first of these are lost.
-/
namespace MailMarkup
open Xml

namespace Xml.Extent

/-- The source between the tags. -/
def interior (x : Extent) : List Char := x.inside.flatMap Token.source

/-- The pieces of text that end what is inside. -/
def lastPieces (x : Extent) : List Token := x.inside.rtakeWhile Token.isPiece

end Xml.Extent

/-- The content of an element is its interior up to the first of the pieces that end it. -/
theorem Element.HasExtent.interior_eq {e : Element} {x : Extent} (h : e.HasExtent x) :
    x.interior = e.content.toList ++ x.lastPieces.tail.flatMap Token.source := by
  rw [Element.content, String.toList_ofList]
  exact h.spells.inner_append.symm

/-- The node was read from the element: its content is the source between the tags as far as the
first of the pieces of text that end it. -/
structure Node.IsReadFrom (n : Node) (x : Extent) : Prop where
  tag : n.tag = x.tag
  interior : x.interior = n.content.toList ++ x.lastPieces.tail.flatMap Token.source
  whole : n.content.toList = x.interior ↔ x.lastPieces.length ≤ 1

private theorem Node.ofBlock_isReadFrom {e : Element} {n : Node} {x : Extent}
    (read : Node.ofBlock e = .ok n) (matched : e.HasExtent x)
    (nonempty : ∀ t ∈ x.inside, t.source ≠ []) : n.IsReadFrom x := by
  have fields : n.tag = e.tag ∧ n.content = e.content := by
    unfold Node.ofBlock at read
    split at read
    · cases read
    · split at read
      · cases read
        exact ⟨rfl, rfl⟩
      · cases read
  have interior := matched.interior_eq
  rw [← fields.2] at interior
  have pieces : ∀ t ∈ x.lastPieces.tail, t.source ≠ [] := fun t member =>
    nonempty t ((List.rtakeWhile_suffix _ _).subset (List.mem_of_mem_tail member))
  refine ⟨fields.1.trans matched.tag.symm, interior, ?_⟩
  rw [interior, List.self_eq_append_right, List.flatMap_eq_nil_iff]
  constructor
  · intro lost
    have none : x.lastPieces.tail = [] :=
      List.eq_nil_iff_forall_not_mem.mpr fun t member => pieces t member (lost t member)
    have length := congrArg List.length none
    rw [List.length_tail, List.length_nil] at length
    omega
  · intro short t member
    have positive := List.length_pos_of_mem member
    rw [List.length_tail] at positive
    omega

private theorem forall₂_isReadFrom {es : List Element} {xs : List Extent} {ns : List Node}
    (matched : List.Forall₂ Element.HasExtent es xs)
    (read : List.Forall₂ (fun e n => Node.ofBlock e = .ok n) es ns)
    (nonempty : ∀ x ∈ xs, ∀ t ∈ x.inside, t.source ≠ []) :
    List.Forall₂ Node.IsReadFrom ns xs := by
  induction matched generalizing ns with
  | nil =>
    cases read
    exact .nil
  | cons first rest ih =>
    obtain ⟨here, below⟩ := List.forall_mem_cons.mp nonempty
    cases read with
    | cons firstRead restRead =>
      exact .cons (Node.ofBlock_isReadFrom firstRead first here) (ih restRead below)

/-- The content of a block is the source between the tags of its element, unless several pieces of
text end it: those after the first of them are lost. -/
theorem ofMarkup_content (s : String) (d : Document) (parsed : Document.ofMarkup s = .ok d) :
    ∃ ts blocks, tokens (Document.enclosed s) = .ok ts ∧
      ts.flatMap Token.source = Document.enclosed s ∧ Document.HasBlocks ts blocks ∧
      (∀ others, Document.HasBlocks ts others → others = blocks) ∧
      (∀ x ∈ blocks, x.IsIn ts) ∧ List.Forall₂ Node.IsReadFrom d.body.children blocks := by
  obtain ⟨ts, blocks, tokenized, hasBlocks, es, matched, read⟩ :=
    Document.exists_blocks_of_ofMarkup parsed
  have nonempty := source_ne_nil_of_mem_tokens tokenized
  refine ⟨ts, blocks, tokenized, tokens_source tokenized, hasBlocks, fun _ => hasBlocks.unique,
    hasBlocks.isIn, forall₂_isReadFrom matched read ?_⟩
  exact fun x member t inside => nonempty t ((hasBlocks.isIn x member).subset inside)

/-- A section behind an element is kept, and one behind a text is not. -/
theorem ofMarkup_content_pieces :
    let s := "<mj-body><mj-badge/><mj-raw>a<b/><![CDATA[q]]></mj-raw>" ++
      "<mj-raw>a<![CDATA[q]]></mj-raw></mj-body>"
    ∃ d ts blocks, Document.ofMarkup s = .ok d ∧ tokens (Document.enclosed s) = .ok ts ∧
      Document.HasBlocks ts blocks ∧ List.Forall₂ Node.IsReadFrom d.body.children blocks ∧
      d.body.children.map Node.content = ["", "a<b/><![CDATA[q]]>", "a"] := by
  intro s
  have contents : (Document.ofMarkup s).toOption.map (fun d => d.body.children.map Node.content) =
      some ["", "a<b/><![CDATA[q]]>", "a"] := by
    decide +kernel
  cases parsed : Document.ofMarkup s with
  | error p =>
    rw [parsed] at contents
    cases contents
  | ok d =>
    obtain ⟨ts, blocks, tokenized, -, hasBlocks, -, -, read⟩ := ofMarkup_content s d parsed
    rw [parsed] at contents
    exact ⟨d, ts, blocks, rfl, tokenized, hasBlocks, read, Option.some.inj contents⟩

/-- The section at the end is a part of what stands between the tags, but not of the content. -/
theorem ofMarkup_content_cut :
    let s := "<mj-body><mj-raw>a<![CDATA[q]]></mj-raw></mj-body>"
    ∃ d ts blocks, Document.ofMarkup s = .ok d ∧ tokens (Document.enclosed s) = .ok ts ∧
      Document.HasBlocks ts blocks ∧ blocks.map Extent.interior = ["a<![CDATA[q]]>".toList] ∧
      d.body.children.map Node.content = ["a"] := by
  intro s
  let body : Name := ⟨[], "mj-body".toList⟩
  let raw : Name := ⟨[], "mj-raw".toList⟩
  let pieces : List Token := [⟨.text ['a'], ['a']⟩, ⟨.section ['q'], "<![CDATA[q]]>".toList⟩]
  let inBody : List Token :=
    ⟨.opening raw [], "<mj-raw>".toList⟩ :: (pieces ++ [⟨.closing raw, "</mj-raw>".toList⟩])
  let top : List Token :=
    ⟨.opening body [], "<mj-body>".toList⟩ :: (inBody ++ [⟨.closing body, "</mj-body>".toList⟩])
  let root : Name := ⟨[], Document.wrapper⟩
  let ts : List Token :=
    ⟨.opening root [], "<__mjml_root__>".toList⟩ ::
      (top ++ [⟨.closing root, "</__mjml_root__>".toList⟩])
  have rawExtents : Extents inBody [⟨raw, pieces⟩] :=
    .element rfl rfl (.skip rfl (.skip rfl .nil)) .nil
  have bodyExtents : Extents top [⟨body, inBody⟩] := .element rfl rfl rawExtents .nil
  have rootExtents : Extents ts [⟨root, top⟩] := .element rfl rfl bodyExtents .nil
  have hasBlocks : Document.HasBlocks ts [⟨raw, pieces⟩] :=
    ⟨_, _, _, _, rootExtents, bodyExtents, rfl, rfl, rawExtents⟩
  have tokenized : (tokens (Document.enclosed s)).toOption = some ts := by decide +kernel
  have contents : (Document.ofMarkup s).toOption.map (fun d => d.body.children.map Node.content) =
      some ["a"] := by
    decide +kernel
  cases parsed : Document.ofMarkup s with
  | error p =>
    rw [parsed] at contents
    cases contents
  | ok d =>
    cases read : tokens (Document.enclosed s) with
    | error fault =>
      rw [read] at tokenized
      cases tokenized
    | ok found =>
      rw [read] at tokenized
      rw [parsed] at contents
      cases tokenized
      exact ⟨d, ts, _, rfl, rfl, hasBlocks, rfl, Option.some.inj contents⟩

end MailMarkup
