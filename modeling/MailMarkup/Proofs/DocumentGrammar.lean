import MailMarkup.Proofs.DocumentSkeleton
import MailMarkup.Proofs.MarkupCompilation
import MailMarkup.Proofs.TokenSource

/-!
# The grammar of documents

Which elements may stand inside which, from the parts of a document down to the entries of its
defaults and the blocks of its body. What is at odds with the grammar is listed in the order of the
document, without regard to what comes before it; a reader that stops at the first problem it meets
reports the head of that list, and accepts a document if and only if the list is empty.
-/
namespace MailMarkup
open FirstFailure Xml

namespace Element

/-- What may stand in a block of defaults. -/
def IsEntry (e : Element) : Prop :=
  e.tag = "mj-all" ∨ (e.tag = "mj-class" ∧ ∃ name, e.attributes.get? "name" = some name) ∨
    e.tag = "mj-body" ∨ e.tag = "mj-badge" ∨ e.tag = "mj-raw"

def IsHeadPart (e : Element) : Prop :=
  e.tag = "mj-title" ∨ e.tag = "mj-preview" ∨
    (e.tag = "mj-attributes" ∧ ∀ entry ∈ e.elements, entry.IsEntry)

def IsHead (e : Element) : Prop := e.tag = "mj-head" ∧ ∀ part ∈ e.elements, part.IsHeadPart

def IsBodyOfBlocks (e : Element) : Prop :=
  e.tag = "mj-body" ∧ ∀ block ∈ e.elements, block.tag = "mj-badge" ∨ block.tag = "mj-raw"

def entryOffences (e : Element) : List Problem :=
  if e.tag = "mj-class" then
    if (e.attributes.get? "name").isSome then [] else [.namelessClass]
  else if e.tag = "mj-all" ∨ (Component.ofTag? e.tag).isSome then []
  else [.strayInAttributes e.tag]

def headPartOffences (e : Element) : List Problem :=
  if e.tag = "mj-title" ∨ e.tag = "mj-preview" then []
  else if e.tag = "mj-attributes" then e.elements.flatMap entryOffences
  else [.strayInHead e.tag]

def blockOffences (e : Element) : List Problem :=
  if e.tag = "mj-badge" ∨ e.tag = "mj-raw" then []
  else if e.tag = "mj-body" then [.misplacedComponent "mj-body" "mj-body"]
  else [.unknownComponent e.tag]

/-- A second body is a problem that comes before those inside it. -/
def partOffences (isSecond : Bool) (e : Element) : List Problem :=
  if e.tag = "mj-head" then e.elements.flatMap headPartOffences
  else if e.tag = "mj-body" then
    (if isSecond then [.multipleBodies] else []) ++ e.elements.flatMap blockOffences
  else [.strayInRoot e.tag]

end Element

namespace Document

/-- The problems of the parts of a document, which may have met a body before them. -/
def partsOffences : Bool → List Element → List Problem
  | _, [] => []
  | hasBody, e :: rest => e.partOffences hasBody ++ partsOffences (hasBody || e.isBody) rest

/-- All problems of a document with the given elements at the top, in order. -/
def offences (top : List Element) : List Problem :=
  if top = [] then [.emptyDocument]
  else partsOffences false (parts top) ++
    if (parts top).any Element.isBody then [] else [.missingBody]

/-- Heads and one body, with nothing in them that does not belong there. -/
def IsGrammatical (top : List Element) : Prop :=
  (∀ e ∈ parts top, e.IsHead ∨ e.IsBodyOfBlocks) ∧ ∃ e, (parts top).filter Element.isBody = [e]

end Document

section Reading

private theorem Defaults.addElement_reports (d : Defaults) (e : Element) :
    Reports (d.addElement e) e.entryOffences := by
  unfold addElement Element.entryOffences
  by_cases all : e.tag = "mj-all"
  · have other : e.tag ≠ "mj-class" := by simp [all]
    rw [if_pos all, if_neg other, if_pos (.inl all)]
    exact .ok _
  · rw [if_neg all]
    by_cases ofClass : e.tag = "mj-class"
    · rw [if_pos ofClass, if_pos ofClass]
      cases e.attributes.get? "name" with
      | some name => exact .ok _
      | none => exact .error _ _
    · rw [if_neg ofClass, if_neg ofClass]
      by_cases known : (Component.ofTag? e.tag).isSome = true
      · rw [if_pos known, if_pos (.inr known)]
        exact .ok _
      · rw [if_neg known, if_neg (not_or.mpr ⟨all, known⟩)]
        exact .error _ _

private theorem Head.addElement_reports (h : Head) (e : Element) :
    Reports (h.addElement e) e.headPartOffences := by
  unfold addElement Element.headPartOffences
  by_cases title : e.tag = "mj-title"
  · rw [if_pos title, if_pos (.inl title)]
    exact .ok _
  · by_cases preview : e.tag = "mj-preview"
    · rw [if_neg title, if_pos preview, if_pos (.inr preview)]
      exact .ok _
    · rw [if_neg title, if_neg preview, if_neg (not_or.mpr ⟨title, preview⟩)]
      by_cases attributes : e.tag = "mj-attributes"
      · rw [if_pos attributes, if_pos attributes]
        exact (Reports.foldlM Defaults.addElement_reports e.elements .empty).map _
      · rw [if_neg attributes, if_neg attributes]
        exact .error _ _

private theorem Node.ofBlock_reports (e : Element) : Reports (Node.ofBlock e) e.blockOffences := by
  unfold Node.ofBlock Element.blockOffences
  cases known : Component.ofTag? e.tag with
  | none =>
    have other (c : Component) : e.tag ≠ c.tag := by
      rw [Ne, ← Component.ofTag?_eq_some_iff, known]
      exact nofun
    have block : ¬ (e.tag = "mj-badge" ∨ e.tag = "mj-raw") := not_or.mpr ⟨other .badge, other .raw⟩
    have body : e.tag ≠ "mj-body" := other .body
    rw [if_neg block, if_neg body]
    exact .error _ _
  | some c =>
    have tag := Component.ofTag?_eq_some_iff.mp known
    rw [tag]
    cases c with
    | body => exact .error _ _
    | badge => exact .ok _
    | raw => exact .ok _

private theorem Node.ofBody_reports (e : Element) :
    Reports (Node.ofBody e) (e.elements.flatMap Element.blockOffences) :=
  (Reports.mapM Node.ofBlock_reports e.elements).map _

namespace Document

private theorem Draft.addElement_reports (d : Draft) (e : Element) :
    Reports (d.addElement e) (e.partOffences d.body.isSome) := by
  unfold addElement Element.partOffences
  by_cases head : e.tag = "mj-head"
  · rw [if_pos head, if_pos head]
    exact (Reports.foldlM Head.addElement_reports e.elements {}).map _
  · rw [if_neg head, if_neg head]
    by_cases body : e.tag = "mj-body"
    · rw [if_pos body, Component.tag, if_pos body]
      cases d.body with
      | some _ => exact .error _ _
      | none => exact (Node.ofBody_reports e).map _
    · rw [if_neg body, Component.tag, if_neg body]
      exact .error _ _

private theorem Draft.isSome_body_of_addElement {d next : Draft} {e : Element}
    (added : d.addElement e = .ok next) : next.body.isSome = (d.body.isSome || e.isBody) := by
  unfold addElement at added
  split at added
  · next tag =>
    obtain ⟨head, -, rfl⟩ := map_eq_ok_iff.mp added
    simp [Element.isBody, tag]
  · split at added
    · next tag =>
      split at added
      · cases added
      · obtain ⟨n, -, rfl⟩ := map_eq_ok_iff.mp added
        have here : e.isBody = true := beq_iff_eq.mpr tag
        simp [here]
    · cases added

private theorem Draft.foldlM_reports (es : List Element) (d : Draft) :
    Reports (es.foldlM Draft.addElement d) (partsOffences d.body.isSome es) := by
  induction es generalizing d with
  | nil => exact .ok d
  | cons e rest ih =>
    rw [List.foldlM_cons, partsOffences]
    refine (d.addElement_reports e).bind fun next added => ?_
    rw [← isSome_body_of_addElement added]
    exact ih next

private theorem Draft.isSome_body_of_foldlM {es : List Element} {d last : Draft}
    (run : es.foldlM Draft.addElement d = .ok last) :
    last.body.isSome = (d.body.isSome || es.any Element.isBody) := by
  induction es generalizing d with
  | nil =>
    cases run
    simp
  | cons e rest ih =>
    rw [List.foldlM_cons] at run
    obtain ⟨next, added, run⟩ := bind_eq_ok_iff.mp run
    rw [ih run, isSome_body_of_addElement added, List.any_cons, Bool.or_assoc]

private theorem Draft.finish_reports (d : Draft) :
    Reports d.finish (if d.body.isSome then [] else [.missingBody]) := by
  unfold finish
  cases d.body with
  | some body => exact .ok _
  | none => exact .error _ _

/-- Reading a document reports the first of its problems. -/
theorem ofElements_reports (top : List Element) : Reports (ofElements top) (offences top) := by
  unfold ofElements offences
  cases top with
  | nil => exact .error _ _
  | cons e rest =>
    refine (Draft.foldlM_reports (parts (e :: rest)) {}).bind fun last run => ?_
    have met := Draft.isSome_body_of_foldlM run
    rw [Option.isSome_none, Bool.false_or] at met
    rw [← met]
    exact last.finish_reports

end Document

end Reading

section Grammar

namespace Element

private theorem entryOffences_eq_nil_iff (e : Element) : e.entryOffences = [] ↔ e.IsEntry := by
  have known : (Component.ofTag? e.tag).isSome = true ↔
      e.tag = "mj-body" ∨ e.tag = "mj-badge" ∨ e.tag = "mj-raw" := by
    rw [Option.isSome_iff_exists]
    constructor
    · rintro ⟨c, tag⟩
      rw [Component.ofTag?_eq_some_iff.mp tag]
      cases c <;> decide
    · rintro (tag | tag | tag) <;> rw [tag] <;> exact ⟨_, rfl⟩
  unfold entryOffences IsEntry
  rw [← known]
  by_cases ofClass : e.tag = "mj-class"
  · rw [if_pos ofClass, ofClass]
    cases e.attributes.get? "name" with
    | some name => simp
    | none => simp [Component.ofTag?, Component.tag]
  · rw [if_neg ofClass]
    by_cases other : e.tag = "mj-all" ∨ (Component.ofTag? e.tag).isSome = true
    · simp [other, ofClass]
    · simp [other, ofClass]

private theorem headPartOffences_eq_nil_iff (e : Element) :
    e.headPartOffences = [] ↔ e.IsHeadPart := by
  unfold headPartOffences IsHeadPart
  by_cases named : e.tag = "mj-title" ∨ e.tag = "mj-preview"
  · rw [if_pos named]
    exact iff_of_true rfl (or_assoc.mp (.inl named))
  · rw [if_neg named, ← or_assoc, or_iff_right named]
    by_cases attributes : e.tag = "mj-attributes"
    · rw [if_pos attributes, and_iff_right attributes, List.flatMap_eq_nil_iff]
      exact forall₂_congr fun entry _ => entry.entryOffences_eq_nil_iff
    · simp [attributes]

private theorem blockOffences_eq_nil_iff (e : Element) :
    e.blockOffences = [] ↔ e.tag = "mj-badge" ∨ e.tag = "mj-raw" := by
  unfold blockOffences
  by_cases block : e.tag = "mj-badge" ∨ e.tag = "mj-raw"
  · simp [block]
  · rw [if_neg block, iff_false_right block]
    split <;> simp

private theorem partOffences_eq_nil_iff (isSecond : Bool) (e : Element) :
    e.partOffences isSecond = [] ↔ e.IsHead ∨ (isSecond = false ∧ e.IsBodyOfBlocks) := by
  unfold partOffences IsHead IsBodyOfBlocks
  by_cases head : e.tag = "mj-head"
  · have other : e.tag ≠ "mj-body" := by simp [head]
    rw [if_pos head, List.flatMap_eq_nil_iff]
    simp [head, headPartOffences_eq_nil_iff]
  · rw [if_neg head]
    by_cases body : e.tag = "mj-body"
    · rw [if_pos body, List.append_eq_nil_iff, List.flatMap_eq_nil_iff]
      cases isSecond <;> simp [body, blockOffences_eq_nil_iff]
    · simp [head, body]

theorem IsHead.isBody {e : Element} (h : e.IsHead) : e.isBody = false := by
  simp [Element.isBody, h.1]

theorem IsBodyOfBlocks.isBody {e : Element} (h : e.IsBodyOfBlocks) : e.isBody = true :=
  beq_iff_eq.mpr h.1

end Element

namespace Document

private theorem partsOffences_eq_nil_iff (hasBody : Bool) (es : List Element) :
    partsOffences hasBody es = [] ↔ (∀ e ∈ es, e.IsHead ∨ e.IsBodyOfBlocks) ∧
      hasBody.toNat + (es.filter Element.isBody).length ≤ 1 := by
  induction es generalizing hasBody with
  | nil => cases hasBody <;> simp [partsOffences]
  | cons e rest ih =>
    rw [partsOffences, List.append_eq_nil_iff, ih, e.partOffences_eq_nil_iff,
      List.forall_mem_cons]
    constructor
    · rintro ⟨head | ⟨rfl, body⟩, legal, few⟩
      · rw [head.isBody, Bool.or_false] at few
        exact ⟨⟨.inl head, legal⟩, by simpa [head.isBody] using few⟩
      · rw [body.isBody, Bool.or_true] at few
        refine ⟨⟨.inr body, legal⟩, ?_⟩
        rw [List.filter_cons_of_pos body.isBody, List.length_cons]
        simpa [Nat.add_comm] using few
    · rintro ⟨⟨head | body, legal⟩, few⟩
      · rw [List.filter_cons_of_neg (by simp [head.isBody])] at few
        rw [head.isBody, Bool.or_false]
        exact ⟨.inl head, legal, few⟩
      · rw [List.filter_cons_of_pos body.isBody, List.length_cons] at few
        cases hasBody with
        | true =>
          rw [Bool.toNat_true] at few
          omega
        | false =>
          rw [body.isBody, Bool.or_true]
          exact ⟨.inr ⟨rfl, body⟩, legal, by simpa [Nat.add_comm] using few⟩

/-- A document has no problems if and only if the grammar admits it. -/
theorem offences_eq_nil_iff (top : List Element) : offences top = [] ↔ IsGrammatical top := by
  unfold offences IsGrammatical
  cases top with
  | nil => simp [parts]
  | cons e rest =>
    rw [if_neg (List.cons_ne_nil e rest), List.append_eq_nil_iff, partsOffences_eq_nil_iff,
      and_assoc]
    refine and_congr_right fun _ => ?_
    have some : (parts (e :: rest)).any Element.isBody = true ↔
        (parts (e :: rest)).filter Element.isBody ≠ [] := by
      simp [List.filter_eq_nil_iff]
    rw [← List.length_eq_one_iff]
    by_cases met : (parts (e :: rest)).any Element.isBody = true
    · have positive := List.length_pos_iff.mpr (some.mp met)
      rw [if_pos met]
      simp
      omega
    · have none := not_not.mp fun filled => met (some.mpr filled)
      rw [if_neg met, none]
      simp

end Document

end Grammar

section Parts

def Element.isHead (e : Element) : Bool := e.tag == "mj-head"

def Head.ofHead (e : Element) : Except Problem Head := ofElements e.elements

namespace Document

theorem Draft.addElement_head {e : Element} (here : e.isHead = true) (d : Draft) :
    d.addElement e = (Head.ofHead e).map fun h => { d with head := h } := by
  have tag : e.tag = "mj-head" := beq_iff_eq.mp here
  rw [addElement, if_pos tag]
  rfl

/-- What is no head neither reads the head nor touches it. -/
theorem Draft.addElement_other {e : Element} (other : e.isHead = false) (d : Draft) (h : Head) :
    ({ d with head := h } : Draft).addElement e =
      (d.addElement e).map fun next => { next with head := h } := by
  have tag : e.tag ≠ "mj-head" := beq_eq_false_iff_ne.mp other
  unfold addElement
  rw [if_neg tag]
  split
  · split
    · rfl
    · cases Node.ofBody e <;> rfl
  · rfl

theorem Draft.head_of_addElement {d next : Draft} {e : Element} (other : e.isHead = false)
    (added : d.addElement e = .ok next) : next.head = d.head := by
  have kept := addElement_other other d d.head
  rw [added] at kept
  rw [Except.ok.inj kept]

/-- The heads among the elements are read in order, and the last of them counts. -/
theorem exists_heads_of_ofElements {top : List Element} {d : Document}
    (read : ofElements top = .ok d) :
    ∃ heads, ((parts top).filter Element.isHead).mapM Head.ofHead =
      .ok heads ∧ d.head = heads.getLast?.getD {} := by
  have hit (d : Draft) (e : Element) (next : Draft) (here : e.isHead = true)
      (added : d.addElement e = .ok next) : ∃ h, Head.ofHead e = .ok h ∧ next.head = h := by
    rw [Draft.addElement_head here] at added
    obtain ⟨h, first, rfl⟩ := map_eq_ok_iff.mp added
    exact ⟨h, first, rfl⟩
  obtain ⟨heads, reads, same⟩ := exists_mapM_of_foldlM Element.isHead Head.ofHead id Draft.head hit
    (fun _ _ _ => Draft.head_of_addElement) (ofElements_eq_ok_iff.mp read)
  rw [Option.map_id] at same
  exact ⟨heads, reads, same⟩

/-- The same heads in the same order and the same body, whichever stand first. -/
structure IsRearranged (top other : List Element) : Prop where
  heads : (parts other).filter Element.isHead = (parts top).filter Element.isHead
  bodies : (parts other).filter Element.isBody = (parts top).filter Element.isBody
  nothingElse : ∀ e ∈ parts other, e.isHead = true ∨ e.isBody = true

theorem IsRearranged.isGrammatical {top other : List Element} (h : IsRearranged top other)
    (grammatical : IsGrammatical top) : IsGrammatical other := by
  obtain ⟨legal, body⟩ := grammatical
  refine ⟨fun e member => ?_, by rwa [h.bodies]⟩
  have kept : e ∈ parts top := by
    rcases h.nothingElse e member with head | body
    · have found : e ∈ (parts other).filter Element.isHead := List.mem_filter.mpr ⟨member, head⟩
      rw [h.heads] at found
      exact List.mem_of_mem_filter found
    · have found : e ∈ (parts other).filter Element.isBody := List.mem_filter.mpr ⟨member, body⟩
      rw [h.bodies] at found
      exact List.mem_of_mem_filter found
  exact legal e kept

theorem IsRearranged.ofElements {top other : List Element} (h : IsRearranged top other)
    {d : Document} (read : Document.ofElements top = .ok d) :
    Document.ofElements other = .ok d := by
  have grammatical : IsGrammatical top :=
    (offences_eq_nil_iff top).mp ((ofElements_reports top).eq_nil read)
  obtain ⟨d', read'⟩ := (ofElements_reports other).succeeds_iff.mpr
    ((offences_eq_nil_iff other).mpr (h.isGrammatical grammatical))
  obtain ⟨heads, headsRead, head⟩ := exists_heads_of_ofElements read
  obtain ⟨heads', headsRead', head'⟩ := exists_heads_of_ofElements read'
  obtain ⟨e, bodies, body⟩ := exists_body_of_ofElements read
  obtain ⟨e', bodies', body'⟩ := exists_body_of_ofElements read'
  rw [h.heads, headsRead] at headsRead'
  rw [h.bodies, bodies] at bodies'
  cases headsRead'
  cases bodies'
  have sameHead : d'.head = d.head := head'.trans head.symm
  have sameBody : d'.body = d.body := Except.ok.inj (body'.symm.trans body)
  rw [read']
  exact congrArg₂ (fun head body => Except.ok (Document.mk head body)) sameHead sameBody

/-- The elements at the top of a text with the given root. -/
def topOf (root : Item) : List Element := root.children.filterMap Element.ofItem?

theorem ofMarkup_of_read {s : String} {root : Item} (read : Xml.read (enclosed s) = .ok root) :
    ofMarkup s = ofElements (topOf root) := by
  rw [ofMarkup, read]
  cases root <;> rfl

theorem exists_root_of_wellFormed {s : String}
    (wellFormed : ∀ fault, ofMarkup s ≠ .error (.malformedMarkup fault)) :
    ∃ root, Xml.read (enclosed s) = .ok root := by
  cases read : Xml.read (enclosed s) with
  | ok root => exact ⟨root, rfl⟩
  | error fault =>
    refine absurd ?_ (wellFormed fault)
    rw [ofMarkup, read]

/-- A text that is well formed is accepted if and only if the grammar admits its elements, and
otherwise refused with the first of its problems. What stands between the elements of the structure
does not count, nor does it matter whether the body stands before the heads. -/
theorem ofMarkup_follows_grammar (s : String) (root : Item)
    (read : Xml.read (enclosed s) = .ok root) :
    ((∃ d, ofMarkup s = .ok d) ↔ IsGrammatical (topOf root)) ∧
    (∀ p, ofMarkup s = .error p ↔ (offences (topOf root)).head? = some p) ∧
    ∀ other otherRoot, Xml.read (enclosed other) = .ok otherRoot →
      (Item.skeletons otherRoot.children = Item.skeletons root.children →
        ofMarkup other = ofMarkup s) ∧
      ∀ d, IsRearranged (topOf root) (topOf otherRoot) → ofMarkup s = .ok d →
        ofMarkup other = .ok d := by
  have reports := ofElements_reports (topOf root)
  rw [ofMarkup_of_read read]
  refine ⟨?_, reports, fun other otherRoot otherRead => ?_⟩
  · rw [reports.succeeds_iff, offences_eq_nil_iff]
  · rw [ofMarkup_of_read otherRead]
    refine ⟨fun same => ?_, fun d rearranged => rearranged.ofElements⟩
    rw [topOf, ← ofElements_filterMap_skeletons, same, ofElements_filterMap_skeletons]
    rfl

theorem read_of_tokens {cs : List Char} {root : Item} (ts : List Token)
    (tokenized : (tokens cs).toOption = some ts) (built : treeOf ts = .ok root)
    (bound : bindingFault? [] root = none) : Xml.read cs = .ok root :=
  read_eq_ok_iff.mpr ⟨ts, toOption_eq_some_iff.mp tokenized, built, bound⟩

/-- A second body counts before the unknown block inside it. A text between the parts of a document
does not count, nor does a head behind the body. -/
theorem ofMarkup_follows_grammar_bodies :
    let twice := "<mj-body/><!--2--><mj-body><mj-hero/></mj-body><mj-style/>"
    let headFirst := "<mj-head/><mj-body/>"
    let bodyFirst := "<mj-body/>,<mj-head/>"
    (∃ p, ofMarkup twice = .error p ∧ p.message =
      "Multiple <mj-body> sections found. A document must have exactly one body") ∧
    ∃ d, ofMarkup headFirst = .ok d ∧ ofMarkup bodyFirst = .ok d := by
  intro twice headFirst bodyFirst
  constructor
  · have first : (Xml.read (enclosed twice)).toOption.map
        (fun root => (offences (topOf root)).head?.map Problem.message) =
        some (some "Multiple <mj-body> sections found. A document must have exactly one body") := by
      decide +kernel
    cases read : Xml.read (enclosed twice) with
    | error fault =>
      rw [read] at first
      cases first
    | ok root =>
      obtain ⟨-, refused, -⟩ := ofMarkup_follows_grammar twice root read
      rw [read] at first
      obtain ⟨p, reported, message⟩ := Option.map_eq_some_iff.mp (Option.some.inj first)
      exact ⟨p, (refused p).mpr reported, message⟩
  · let root : Name := ⟨[], wrapper⟩
    let head : Name := ⟨[], "mj-head".toList⟩
    let body : Name := ⟨[], "mj-body".toList⟩
    let opening : Token := ⟨.opening root [], "<__mjml_root__>".toList⟩
    let closing : Token := ⟨.closing root, "</__mjml_root__>".toList⟩
    let emptyHead : Token := ⟨.empty head [], "<mj-head/>".toList⟩
    let emptyBody : Token := ⟨.empty body [], "<mj-body/>".toList⟩
    let comma : Token := ⟨.text [','], [',']⟩
    let headItem : Item := .element head [] [] emptyHead.source []
    let bodyItem : Item := .element body [] [] emptyBody.source []
    let rootItem (items : List Item) : Item :=
      .element root [] items opening.source closing.source
    have read : Xml.read (enclosed headFirst) = .ok (rootItem [headItem, bodyItem]) :=
      read_of_tokens [opening, emptyHead, emptyBody, closing] (by decide +kernel) rfl
        (by decide)
    have otherRead : Xml.read (enclosed bodyFirst) =
        .ok (rootItem [bodyItem, .text [','] [','], headItem]) :=
      read_of_tokens [opening, emptyBody, comma, emptyHead, closing] (by decide +kernel) rfl
        (by decide)
    obtain ⟨accepted, -, others⟩ := ofMarkup_follows_grammar headFirst _ read
    have grammatical : IsGrammatical (topOf (rootItem [headItem, bodyItem])) :=
      (offences_eq_nil_iff _).mp rfl
    obtain ⟨d, readFirst⟩ := accepted.mpr grammatical
    let headPart : Element := ⟨"mj-head", Element.tableOf [], []⟩
    let bodyPart : Element := ⟨"mj-body", Element.tableOf [], []⟩
    have top : topOf (rootItem [headItem, bodyItem]) = [headPart, bodyPart] := rfl
    have otherTop : topOf (rootItem [bodyItem, .text [','] [','], headItem]) =
        [bodyPart, headPart] := rfl
    have isHead : headPart.isHead = true ∧ bodyPart.isHead = false := by decide
    have isBody : headPart.isBody = false ∧ bodyPart.isBody = true := by decide
    have rearranged : IsRearranged (topOf (rootItem [headItem, bodyItem]))
        (topOf (rootItem [bodyItem, .text [','] [','], headItem])) := by
      rw [top, otherTop]
      constructor <;> simp [parts, isHead, isBody]
    exact ⟨d, readFirst, (others bodyFirst _ otherRead).2 d rearranged readFirst⟩

end Document

end Parts

end MailMarkup
