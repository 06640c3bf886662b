import MailMarkup.Proofs.DefaultMerging
import MailMarkup.Proofs.DocumentGrammar

/-!
# Which defaults of a head count

Each block of defaults replaces what the blocks before it in its head have declared, and each head
replaces the heads before it. So only the last block of the last head counts, while the entries
within a block are merged. Nothing is lost exactly if that block has something for all that the
other blocks declare, and to cut a block in two loses its front unless another block counts anyway.
-/
namespace MailMarkup
open FirstFailure Xml

def Element.isDefaults (e : Element) : Bool := e.tag == "mj-attributes"

namespace Defaults

def ofBlock (e : Element) : Except Problem Defaults := ofElements e.elements

private theorem ofBlock_append {block first second : Element}
    (entries : block.elements = first.elements ++ second.elements) :
    ofBlock block = (ofBlock first).bind fun lower => (ofBlock second).map lower.merge := by
  rw [ofBlock, entries, ofElements_append]
  rfl

/-- The defaults of the blocks of a head, in order. -/
def ofHead (e : Element) : Except Problem (List Defaults) :=
  (e.elements.filter Element.isDefaults).mapM ofBlock

def mergeAll (ds : List Defaults) : Defaults := ds.foldl merge .empty

theorem mergeAll_concat (ds : List Defaults) (d : Defaults) :
    mergeAll (ds ++ [d]) = (mergeAll ds).merge d := List.foldl_concat ..

/-- The last of the blocks of the last head. -/
def counted (heads : List (List Defaults)) : Defaults :=
  ((heads.getLast?.getD []).getLast?).getD .empty

/-- The blocks before the one that counts. -/
def replaced (heads : List (List Defaults)) : List Defaults :=
  heads.dropLast.flatten ++ (heads.getLast?.getD []).dropLast

/-- A last head without blocks replaces the others by the empty defaults. -/
theorem mergeAll_flatten (heads : List (List Defaults)) :
    mergeAll heads.flatten = (mergeAll (replaced heads)).merge (counted heads) := by
  rcases heads.eq_nil_or_concat with rfl | ⟨front, blocks, rfl⟩
  · rfl
  · rcases blocks.eq_nil_or_concat with rfl | ⟨others, last, rfl⟩
    · simp [replaced, counted]
    · simp [replaced, counted, ← mergeAll_concat]

end Defaults

section Blocks

namespace Head

private theorem addElement_block {e : Element} (block : e.isDefaults = true) (h : Head) :
    h.addElement e = (Defaults.ofBlock e).map fun d => { h with defaults := d } := by
  have tag : e.tag = "mj-attributes" := beq_iff_eq.mp block
  simp only [addElement, tag]
  rfl

private theorem foldlM_block {e : Element} (block : e.isDefaults = true) {d : Defaults}
    (read : Defaults.ofBlock e = .ok d) (es : List Element) (h : Head) :
    (e :: es).foldlM addElement h = es.foldlM addElement { h with defaults := d } := by
  have added := addElement_block block h
  rw [read] at added
  exact foldlM_cons_of_ok added es

/-- What is no block neither reads the defaults nor touches them. -/
theorem addElement_other {e : Element} (other : e.isDefaults = false) (h : Head) (d : Defaults) :
    ({ h with defaults := d } : Head).addElement e =
      (h.addElement e).map fun next => { next with defaults := d } := by
  have tag : e.tag ≠ "mj-attributes" := beq_eq_false_iff_ne.mp other
  unfold addElement
  rw [if_neg tag]
  split
  · rfl
  · split <;> rfl

private theorem defaults_of_addElement {h next : Head} {e : Element} (other : e.isDefaults = false)
    (added : h.addElement e = .ok next) : next.defaults = h.defaults := by
  have kept := addElement_other other h h.defaults
  rw [added] at kept
  rw [Except.ok.inj kept]

private theorem exists_blocks_of_ofHead {e : Element} {h : Head} (read : ofHead e = .ok h) :
    ∃ ds, Defaults.ofHead e = .ok ds ∧ h.defaults = ds.getLast?.getD .empty := by
  have hit (h : Head) (e : Element) (next : Head) (block : e.isDefaults = true)
      (added : h.addElement e = .ok next) :
      ∃ d, Defaults.ofBlock e = .ok d ∧ next.defaults = d := by
    rw [addElement_block block] at added
    obtain ⟨d, first, rfl⟩ := map_eq_ok_iff.mp added
    exact ⟨d, first, rfl⟩
  obtain ⟨ds, reads, same⟩ := exists_mapM_of_foldlM Element.isDefaults Defaults.ofBlock id defaults
    hit (fun _ _ _ => defaults_of_addElement) read
  rw [Option.map_id] at same
  exact ⟨ds, reads, same⟩

private theorem foldlM_withDefaults (es : List Element) (h : Head) (d : Defaults) :
    es.foldlM addElement ({ h with defaults := d } : Head) =
      if es.any Element.isDefaults then es.foldlM addElement h
      else (es.foldlM addElement h).map fun last => { last with defaults := d } := by
  refine foldlM_write Element.isDefaults (fun h d => { h with defaults := d }) ?_ ?_ es h d
  · intro h d e block
    rw [addElement_block block, addElement_block block]
  · exact fun h d e other => addElement_other other h d

end Head

namespace Document

private theorem Draft.foldlM_withHead (es : List Element) (d : Draft) (h : Head) :
    es.foldlM addElement ({ d with head := h } : Draft) =
      if es.any Element.isHead then es.foldlM addElement d
      else (es.foldlM addElement d).map fun last => { last with head := h } := by
  refine foldlM_write Element.isHead (fun d h => { d with head := h }) ?_ ?_ es d h
  · intro d h e here
    rw [addElement_head here, addElement_head here]
  · exact fun d h e other => addElement_other other d h

private theorem exists_blocks_of_ofElements {top : List Element} {d : Document}
    (read : ofElements top = .ok d) :
    ∃ heads, ((parts top).filter Element.isHead).mapM Defaults.ofHead = .ok heads ∧
      d.head.defaults = Defaults.counted heads := by
  have hit (d : Draft) (e : Element) (next : Draft) (here : e.isHead = true)
      (added : d.addElement e = .ok next) : ∃ ds, Defaults.ofHead e = .ok ds ∧
        next.head.defaults = ds.getLast?.getD .empty := by
    rw [Draft.addElement_head here] at added
    obtain ⟨h, read, rfl⟩ := map_eq_ok_iff.mp added
    exact Head.exists_blocks_of_ofHead read
  have miss (d : Draft) (e : Element) (next : Draft) (other : e.isHead = false)
      (added : d.addElement e = .ok next) : next.head.defaults = d.head.defaults :=
    congrArg Head.defaults (Draft.head_of_addElement other added)
  obtain ⟨heads, reads, same⟩ := exists_mapM_of_foldlM Element.isHead Defaults.ofHead
    (fun ds => ds.getLast?.getD .empty) (fun d => d.head.defaults) hit miss
    (ofElements_eq_ok_iff.mp read)
  refine ⟨heads, reads, same.trans ?_⟩
  rw [Defaults.counted]
  cases heads.getLast? <;> rfl

end Document

end Blocks

section Cuts

/-- In the other head two blocks of defaults stand where the first has one with their entries. -/
structure Element.BlockCut (head other : Element) where
  before : List Element
  block : Element
  first : Element
  second : Element
  after : List Element
  elements : head.elements = before ++ block :: after
  elements_other : other.elements = before ++ first :: second :: after
  entries : block.elements = first.elements ++ second.elements
  block_isDefaults : block.isDefaults = true
  first_isDefaults : first.isDefaults = true
  second_isDefaults : second.isDefaults = true

/-- No block behind replaces the ones concerned. -/
def Element.BlockCut.isLast {head other : Element} (c : head.BlockCut other) : Bool :=
  !c.after.any Element.isDefaults

/-- What follows the block is read twice, from two heads that differ in their defaults alone. -/
theorem Head.ofHead_cut {head other : Element} (c : head.BlockCut other) {h : Head}
    (read : ofHead head = .ok h) :
    ∃ lower upper, Defaults.ofBlock c.first = .ok lower ∧ Defaults.ofBlock c.second = .ok upper ∧
      ofHead other = .ok (if c.isLast then { h with defaults := upper } else h) ∧
      (c.isLast = true → h.defaults = lower.merge upper) := by
  rw [ofHead, ofElements, c.elements, List.foldlM_append] at read
  obtain ⟨met, front, read⟩ := bind_eq_ok_iff.mp read
  rw [List.foldlM_cons, addElement_block c.block_isDefaults,
    Defaults.ofBlock_append c.entries] at read
  obtain ⟨_, added, rear⟩ := bind_eq_ok_iff.mp read
  obtain ⟨_, block, rfl⟩ := map_eq_ok_iff.mp added
  obtain ⟨lower, first, merged⟩ := bind_eq_ok_iff.mp block
  obtain ⟨upper, second, rfl⟩ := map_eq_ok_iff.mp merged
  refine ⟨lower, upper, first, second, ?_⟩
  rw [foldlM_withDefaults] at rear
  rw [ofHead, ofElements, c.elements_other, foldlM_append_of_ok front,
    foldlM_block c.first_isDefaults first, foldlM_block c.second_isDefaults second,
    foldlM_withDefaults c.after met upper, Element.BlockCut.isLast]
  cases later : c.after.any Element.isDefaults with
  | true =>
    rw [later, if_pos rfl] at rear
    rw [Bool.not_true]
    exact ⟨rear, fun isLast => absurd isLast Bool.false_ne_true⟩
  | false =>
    rw [later, if_neg Bool.false_ne_true] at rear
    obtain ⟨last, rest, rfl⟩ := map_eq_ok_iff.mp rear
    rw [rest]
    exact ⟨rfl, fun _ => rfl⟩

namespace Document

/-- In one head of the other document a block of defaults is cut in two. -/
structure BlockCut (top other : List Element) where
  front : List Element
  head : Element
  cut : Element
  rear : List Element
  blocks : head.BlockCut cut
  parts_eq : parts top = front ++ head :: rear
  parts_other : parts other = front ++ cut :: rear
  head_isHead : head.isHead = true
  cut_isHead : cut.isHead = true

/-- Neither a block nor a head behind replaces the blocks concerned. -/
def BlockCut.isLast {top other : List Element} (c : BlockCut top other) : Bool :=
  c.blocks.isLast && !c.rear.any Element.isHead

def withDefaults (d : Document) (defaults : Defaults) : Document :=
  { d with head := { d.head with defaults := defaults } }

/-- To cut a block loses its front, if the block counts, and else does nothing. -/
theorem ofElements_cut {top other : List Element} (c : BlockCut top other) {d : Document}
    (read : ofElements top = .ok d) :
    ∃ lower upper, Defaults.ofBlock c.blocks.first = .ok lower ∧
      Defaults.ofBlock c.blocks.second = .ok upper ∧
      ofElements other = .ok (if c.isLast then d.withDefaults upper else d) ∧
      (c.isLast = true → d.head.defaults = lower.merge upper) := by
  rw [ofElements_eq_ok_iff, c.parts_eq, List.foldlM_append] at read
  obtain ⟨met, front, read⟩ := bind_eq_ok_iff.mp read
  rw [List.foldlM_cons, Draft.addElement_head c.head_isHead] at read
  obtain ⟨_, added, rear⟩ := bind_eq_ok_iff.mp read
  obtain ⟨h, headRead, rfl⟩ := map_eq_ok_iff.mp added
  obtain ⟨lower, upper, first, second, cut, merged⟩ := Head.ofHead_cut c.blocks headRead
  refine ⟨lower, upper, first, second, ?_⟩
  have here := Draft.addElement_head c.cut_isHead met
  rw [cut] at here
  rw [Draft.foldlM_withHead] at rear
  rw [ofElements_eq_ok_iff, c.parts_other, foldlM_append_of_ok front, foldlM_cons_of_ok here,
    Draft.foldlM_withHead, BlockCut.isLast]
  cases later : c.rear.any Element.isHead with
  | true =>
    rw [later, if_pos rfl] at rear
    rw [Bool.not_true, Bool.and_false]
    exact ⟨rear, fun isLast => absurd isLast Bool.false_ne_true⟩
  | false =>
    rw [later, if_neg Bool.false_ne_true] at rear
    obtain ⟨last, rest, same⟩ := map_eq_ok_iff.mp rear
    obtain ⟨rfl, body⟩ := Draft.mk.inj same
    rw [if_neg Bool.false_ne_true, rest, Bool.not_false, Bool.and_true]
    refine ⟨?_, merged⟩
    rw [Except.map, body]
    split <;> rfl

private theorem withDefaults_eq_self_iff {d : Document} {defaults : Defaults} :
    d.withDefaults defaults = d ↔ d.head.defaults = defaults := by
  constructor
  · intro same
    rw [← same]
    rfl
  · rintro rfl
    rfl

/-- The defaults of an accepted text are those of the last block of its last head. They have all
that its blocks declare if and only if that block has something in place of all that the others
declare, and a block can be cut in two without a change if and only if it does not count or its
second part has something in place of all that the first declares. -/
theorem ofMarkup_counts_last_block (s : String) (d : Document) (parsed : ofMarkup s = .ok d) :
    ∃ root heads, Xml.read (enclosed s) = .ok root ∧
      ((parts (topOf root)).filter Element.isHead).mapM Defaults.ofHead = .ok heads ∧
      d.head.defaults = Defaults.counted heads ∧
      (d.head.defaults = Defaults.mergeAll heads.flatten ↔
        (Defaults.mergeAll (Defaults.replaced heads)).IsCoveredBy (Defaults.counted heads)) ∧
      ∀ other otherRoot, Xml.read (enclosed other) = .ok otherRoot →
        ∀ c : BlockCut (topOf root) (topOf otherRoot), ∃ lower upper,
          Defaults.ofBlock c.blocks.first = .ok lower ∧
          Defaults.ofBlock c.blocks.second = .ok upper ∧
          (c.isLast = true → d.head.defaults = lower.merge upper) ∧
          ofMarkup other = .ok (if c.isLast then d.withDefaults upper else d) ∧
          (ofMarkup other = .ok d ↔ (c.isLast = true → lower.IsCoveredBy upper)) := by
  obtain ⟨root, read⟩ := exists_root_of_wellFormed fun fault malformed =>
    nomatch parsed.symm.trans malformed
  rw [ofMarkup_of_read read] at parsed
  obtain ⟨heads, headsRead, counted⟩ := exists_blocks_of_ofElements parsed
  refine ⟨root, heads, read, headsRead, counted, ?_, fun other otherRoot otherRead c => ?_⟩
  · rw [counted, Defaults.mergeAll_flatten, eq_comm, Defaults.merge_eq_right_iff]
  · obtain ⟨lower, upper, first, second, cut, merged⟩ := ofElements_cut c parsed
    rw [ofMarkup_of_read otherRead]
    refine ⟨lower, upper, first, second, merged, cut, ?_⟩
    rw [cut, Except.ok.injEq]
    cases last : c.isLast with
    | true =>
      rw [if_pos rfl, withDefaults_eq_self_iff, merged last, Defaults.merge_eq_right_iff]
      exact ⟨fun covered _ => covered, fun covered => covered rfl⟩
    | false => exact iff_of_true rfl nofun

/-- Two entries of one block are merged. If each stands in a block of its own, the first is lost. -/
theorem ofMarkup_counts_last_block_cut :
    let one := "<mj-head><mj-attributes><mj-all color='red'/><mj-all align='left'/>" ++
      "</mj-attributes></mj-head><mj-body/>"
    let two := "<mj-head><mj-attributes><mj-all color='red'/></mj-attributes><mj-attributes>" ++
      "<mj-all align='left'/></mj-attributes></mj-head><mj-body/>"
    let lower : Defaults := { all := .ofList [("color", "red")] }
    let upper : Defaults := { all := .ofList [("align", "left")] }
    ∃ d, ofMarkup one = .ok d ∧ d.head.defaults = lower.merge upper ∧
      ofMarkup two = .ok (d.withDefaults upper) := by
  intro one two lower upper
  let root : Name := ⟨[], wrapper⟩
  let head : Name := ⟨[], "mj-head".toList⟩
  let block : Name := ⟨[], "mj-attributes".toList⟩
  let all : Name := ⟨[], "mj-all".toList⟩
  let body : Name := ⟨[], "mj-body".toList⟩
  let color : List Attribute := [⟨⟨[], "color".toList⟩, "red".toList⟩]
  let align : List Attribute := [⟨⟨[], "align".toList⟩, "left".toList⟩]
  let opens (name : Name) : Token := ⟨.opening name [], ['<'] ++ name.base ++ ['>']⟩
  let closes (name : Name) : Token := ⟨.closing name, ['<', '/'] ++ name.base ++ ['>']⟩
  let colorEntry : Token := ⟨.empty all color, "<mj-all color='red'/>".toList⟩
  let alignEntry : Token := ⟨.empty all align, "<mj-all align='left'/>".toList⟩
  let emptyBody : Token := ⟨.empty body [], "<mj-body/>".toList⟩
  let around (name : Name) (items : List Item) : Item :=
    .element name [] items (opens name).source (closes name).source
  let colorItem : Item := .element all color [] colorEntry.source []
  let alignItem : Item := .element all align [] alignEntry.source []
  let bodyItem : Item := .element body [] [] emptyBody.source []
  have readOne : Xml.read (enclosed one) = .ok (around root
      [around head [around block [colorItem, alignItem]], bodyItem]) :=
    read_of_tokens [opens root, opens head, opens block, colorEntry, alignEntry, closes block,
      closes head, emptyBody, closes root] (by decide +kernel) rfl (by decide)
  have readTwo : Xml.read (enclosed two) = .ok (around root
      [around head [around block [colorItem], around block [alignItem]], bodyItem]) :=
    read_of_tokens [opens root, opens head, opens block, colorEntry, closes block, opens block,
      alignEntry, closes block, closes head, emptyBody, closes root] (by decide +kernel) rfl
      (by decide)
  let headOf (items : List Item) : Element := ⟨"mj-head", Element.tableOf [], items⟩
  let blockOf (items : List Item) : Element := ⟨"mj-attributes", Element.tableOf [], items⟩
  let blocks : (headOf [around block [colorItem, alignItem]]).BlockCut
      (headOf [around block [colorItem], around block [alignItem]]) :=
    ⟨[], blockOf [colorItem, alignItem], blockOf [colorItem], blockOf [alignItem], [], rfl, rfl,
      rfl, rfl, rfl, rfl⟩
  let c : BlockCut (topOf (around root
      [around head [around block [colorItem, alignItem]], bodyItem])) (topOf (around root
      [around head [around block [colorItem], around block [alignItem]], bodyItem])) :=
    ⟨[], _, _, [⟨"mj-body", Element.tableOf [], []⟩], blocks, rfl, rfl, rfl, rfl⟩
  let d : Document := ⟨{ defaults := lower.merge upper }, { tag := "mj-body" }⟩
  have parsed : ofMarkup one = .ok d := by
    rw [ofMarkup_of_read readOne]
    rfl
  obtain ⟨_, heads, read, -, -, -, cuts⟩ := ofMarkup_counts_last_block one d parsed
  cases readOne.symm.trans read
  obtain ⟨lower', upper', first, second, merged, cut, -⟩ := cuts two _ readTwo c
  have lowerRead : Defaults.ofBlock c.blocks.first = .ok lower := rfl
  have upperRead : Defaults.ofBlock c.blocks.second = .ok upper := rfl
  cases lowerRead.symm.trans first
  cases upperRead.symm.trans second
  have last : c.isLast = true := rfl
  rw [if_pos last] at cut
  exact ⟨d, parsed, merged last, cut⟩

/-- What the first of two blocks declares is lost. -/
theorem ofMarkup_counts_last_block_lost :
    let s := "<mj-head><mj-attributes><mj-all color=\"red\"/></mj-attributes>" ++
      "<mj-attributes><mj-all align=\"left\"/></mj-attributes></mj-head><mj-body/>"
    ∃ d root heads, ofMarkup s = .ok d ∧ Xml.read (enclosed s) = .ok root ∧
      ((parts (topOf root)).filter Element.isHead).mapM Defaults.ofHead = .ok heads ∧
      (Defaults.mergeAll heads.flatten).all.get? "color" = some "red" ∧
      d.head.defaults.all.get? "color" = none := by
  intro s
  have evaluated : (Xml.read (enclosed s)).toOption.map (fun root =>
      ((ofElements (topOf root)).toOption.isSome,
        (((parts (topOf root)).filter Element.isHead).mapM Defaults.ofHead).toOption)) =
        some (true, some [[{ all := .ofList [("color", "red")] },
          { all := .ofList [("align", "left")] }]]) := by decide +kernel
  obtain ⟨root, found, results⟩ := Option.map_eq_some_iff.mp evaluated
  obtain ⟨accepted, blocks⟩ := Prod.mk.inj results
  obtain ⟨d, parsed⟩ := Option.isSome_iff_exists.mp accepted
  have read := toOption_eq_some_iff.mp found
  have headsRead := toOption_eq_some_iff.mp blocks
  rw [toOption_eq_some_iff] at parsed
  obtain ⟨heads, headsRead', counted⟩ := exists_blocks_of_ofElements parsed
  cases headsRead.symm.trans headsRead'
  refine ⟨d, root, _, (ofMarkup_of_read read).trans parsed, read, headsRead, by decide, ?_⟩
  rw [counted]
  decide

end Document

end Cuts

end MailMarkup
