import MailMarkup.Proofs.FirstFailure
import MailMarkup.Xml.Binding

/-!
# The tokens of a tree

The items that tokens make up are spelled by them: an element by its tags and the tokens between
them, every other item by one token. While tokens are read, those of an open element are its tag and
the tokens that spell its children so far.
-/
namespace MailMarkup.Xml

namespace Item

def isElement : Item → Bool
  | .element .. => true
  | _ => false

/-- Text outside of the root is nothing but spaces. -/
def isOutermost : Item → Bool
  | .text _ source => source.all isSpace
  | _ => true

end Item

/-- The items that the tokens make up, in order. -/
inductive Spells : List Token → List Item → Prop
  | nil : Spells [] []
  | piece {t : Token} {value : List Char} {ts : List Token} {items : List Item} :
      t.lexeme = .text value ∨ t.lexeme = .section value → Spells ts items →
      Spells (t :: ts) (.text value t.source :: items)
  | aside {t : Token} {ts : List Token} {items : List Item} :
      t.lexeme = .aside → Spells ts items → Spells (t :: ts) (.aside t.source :: items)
  | empty {t : Token} {name : Name} {attributes : List Attribute} {ts : List Token}
      {items : List Item} :
      t.lexeme = .empty name attributes → Spells ts items →
      Spells (t :: ts) (.element name attributes [] t.source [] :: items)
  | element {t u : Token} {name : Name} {attributes : List Attribute} {inside ts : List Token}
      {children items : List Item} :
      t.lexeme = .opening name attributes → u.lexeme = .closing name → Spells inside children →
      Spells ts items →
      Spells (t :: (inside ++ u :: ts))
        (.element name attributes children t.source u.source :: items)

namespace Spells

theorem append {ts others : List Token} {items more : List Item} (first : Spells ts items)
    (second : Spells others more) : Spells (ts ++ others) (items ++ more) := by
  induction first with
  | nil => exact second
  | piece lexeme _ ih => exact .piece lexeme ih
  | aside lexeme _ ih => exact .aside lexeme ih
  | empty lexeme _ ih => exact .empty lexeme ih
  | element opening closing inside _ _ ih =>
    rw [List.cons_append, List.append_assoc, List.cons_append]
    exact .element opening closing inside ih

/-- The source of items is that of the tokens. -/
theorem sources_eq {ts : List Token} {items : List Item} (h : Spells ts items) :
    Item.sources items = ts.flatMap Token.source := by
  induction h with
  | nil => rfl
  | piece _ _ ih => rw [Item.sources, Item.source, ih, List.flatMap_cons]
  | aside _ _ ih => rw [Item.sources, Item.source, ih, List.flatMap_cons]
  | empty _ _ ih =>
    rw [Item.sources, Item.source, Item.sources, ih, List.flatMap_cons, List.append_nil,
      List.append_nil]
  | element _ _ _ _ ihInside ih =>
    simp only [Item.sources, Item.source, ihInside, ih, List.flatMap_cons, List.flatMap_append,
      List.append_assoc]

end Spells

/-- The tokens read while elements are open: before the outermost one those that spell the items
`outer`, then for each its tag and what spells its children so far. -/
inductive Unclosed (outer : List Item) : List Frame → List Token → Prop
  | nil {ts : List Token} : Spells ts outer → Unclosed outer [] ts
  | cons {f : Frame} {fs : List Frame} {t : Token} {ts inside : List Token} :
      Unclosed outer fs ts → t.lexeme = .opening f.name f.attributes → t.source = f.source →
      Spells inside f.children.reverse → Unclosed outer (f :: fs) (ts ++ t :: inside)

namespace Progress

/-- The progress that is made with the tokens, of which those outside of the root, or before it,
spell no more than spaces and asides. -/
def IsAfter (p : Progress) (ts : List Token) : Prop :=
  ∃ outer, Unclosed outer p.stack ts ∧ outer.filter Item.isElement = p.root.toList ∧
    ∀ item ∈ outer, item.isOutermost = true

private theorem isAfter_nil : IsAfter {} [] := ⟨[], .nil .nil, rfl, nofun⟩

/-- An item whose tokens have all been read becomes the root or a child of the innermost open
element. -/
theorem isAfter_add {p q : Progress} {ts new : List Token} {item : Item} (after : p.IsAfter ts)
    (spells : Spells new [item]) (placed : p.stack = [] → item.isElement = true)
    (added : p.add item = .ok q) : q.IsAfter (ts ++ new) := by
  obtain ⟨outer, unclosed, root, outermost⟩ := after
  obtain ⟨stack, root?⟩ := p
  cases unclosed with
  | nil outside =>
    cases root? with
    | some _ => cases added
    | none =>
      cases added
      have element := placed rfl
      refine ⟨outer ++ [item], .nil (outside.append spells), ?_, ?_⟩
      · rw [List.filter_append, root, List.filter_singleton, element]
        rfl
      · rw [List.forall_mem_append, List.forall_mem_singleton]
        refine ⟨outermost, ?_⟩
        cases item <;> first | rfl | cases element
  | cons outside tag source inside =>
    cases added
    refine ⟨outer, ?_, root, outermost⟩
    rw [List.append_assoc, List.cons_append]
    refine .cons outside tag source ?_
    rw [List.reverse_cons]
    exact inside.append spells

/-- What stands outside of the root is passed over. -/
theorem isAfter_outside {p : Progress} {ts : List Token} {t : Token} {item : Item}
    (after : p.IsAfter ts) (closed : p.stack = []) (spells : Spells [t] [item])
    (other : item.isElement = false) (outermost : item.isOutermost = true) :
    p.IsAfter (ts ++ [t]) := by
  obtain ⟨outer, unclosed, root, before⟩ := after
  rw [closed] at unclosed
  cases unclosed with
  | nil outside =>
    refine ⟨outer ++ [item], ?_, ?_, ?_⟩
    · rw [closed]
      exact .nil (outside.append spells)
    · rw [List.filter_append, root, List.filter_singleton, other]
      exact List.append_nil _
    · rw [List.forall_mem_append, List.forall_mem_singleton]
      exact ⟨before, outermost⟩

/-- The innermost open element is closed by a tag of its name. -/
theorem isAfter_close {f : Frame} {fs : List Frame} {root : Option Item} {q : Progress}
    {ts : List Token} {u : Token} (after : IsAfter ⟨f :: fs, root⟩ ts)
    (lexeme : u.lexeme = .closing f.name)
    (added : add ⟨fs, root⟩ (f.close u.source) = .ok q) : q.IsAfter (ts ++ [u]) := by
  obtain ⟨outer, unclosed, same, outermost⟩ := after
  cases unclosed with
  | @cons _ _ t _ between outside tag source inside =>
    have whole : Spells (t :: (between ++ [u])) [f.close u.source] := by
      rw [Frame.close, ← source]
      exact .element tag lexeme inside .nil
    rw [List.append_assoc, List.cons_append]
    have before : IsAfter ⟨fs, root⟩ _ := ⟨outer, outside, same, outermost⟩
    exact isAfter_add before whole (fun _ => rfl) added

private theorem isAfter_step {p q : Progress} {ts : List Token} {t : Token} (after : p.IsAfter ts)
    (step : p.step t = .ok q) : q.IsAfter (ts ++ [t]) := by
  rw [Progress.step] at step
  split at step
  · next name attributes lexeme =>
    split at step
    · cases step
    · cases step
      obtain ⟨outer, unclosed, rest⟩ := after
      exact ⟨outer, .cons unclosed lexeme rfl .nil, rest⟩
  · next name attributes lexeme =>
    exact isAfter_add after (.empty lexeme .nil) (fun _ => rfl) step
  · next name lexeme =>
    obtain ⟨stack, root⟩ := p
    cases stack with
    | nil => cases step
    | cons f fs =>
      simp only at step
      split at step
      · next same => exact isAfter_close after (same ▸ lexeme) step
      · cases step
  · next value lexeme =>
    split at step
    · next closed =>
      split at step
      · next blank =>
        cases step
        exact isAfter_outside after closed (.piece (.inl lexeme) .nil) rfl blank
      · cases step
    · next opened =>
      exact isAfter_add after (.piece (.inl lexeme) .nil) (fun closed => (opened closed).elim) step
  · next value lexeme =>
    split at step
    · cases step
    · next opened =>
      exact isAfter_add after (.piece (.inr lexeme) .nil) (fun closed => (opened closed).elim) step
  · next lexeme =>
    split at step
    · next closed =>
      cases step
      exact isAfter_outside after closed (.aside lexeme .nil) rfl rfl
    · next opened =>
      exact isAfter_add after (.aside lexeme .nil) (fun closed => (opened closed).elim) step

end Progress

/-- The tokens of a tree spell it, with nothing but spaces and asides around it. -/
theorem spells_of_treeOf {ts : List Token} {root : Item} (read : treeOf ts = .ok root) :
    ∃ items, Spells ts items ∧ items.filter Item.isElement = [root] ∧
      ∀ item ∈ items, item.isOutermost = true := by
  obtain ⟨p, run, finish⟩ := FirstFailure.bind_eq_ok_iff.mp read
  obtain ⟨outer, unclosed, same, outermost⟩ : p.IsAfter ts :=
    FirstFailure.foldlM_follows (P := fun ts p => p.IsAfter ts)
      (fun _ _ _ _ => Progress.isAfter_step) [] Progress.isAfter_nil run
  obtain ⟨stack, root?⟩ := p
  cases unclosed with
  | cons => cases finish
  | nil spells =>
    cases root? with
    | none => cases finish
    | some _ =>
      cases finish
      exact ⟨outer, spells, same, outermost⟩

namespace Progress

variable {t : Token}

private theorem step_opening {name : Name} {attributes : List Attribute}
    (lexeme : t.lexeme = .opening name attributes) (fs : List Frame) :
    step ⟨fs, none⟩ t = .ok ⟨⟨name, attributes, t.source, []⟩ :: fs, none⟩ := by
  rw [step, lexeme]
  simp

private theorem step_closing {f : Frame} (lexeme : t.lexeme = .closing f.name) (fs : List Frame) :
    step ⟨f :: fs, none⟩ t = add ⟨fs, none⟩ (f.close t.source) := by
  rw [step, lexeme]
  simp

end Progress

namespace Spells

/-- Tokens that spell items add them to the innermost open element, whatever it has so far and
whatever is open around it. An element is read with itself as the innermost one, and is then added
to the one around it. -/
theorem foldlM_step {ts : List Token} {items : List Item} (h : Spells ts items) (f : Frame)
    (fs : List Frame) : ts.foldlM Progress.step ⟨f :: fs, none⟩ =
      .ok ⟨{ f with children := items.reverse ++ f.children } :: fs, none⟩ := by
  induction h generalizing f fs with
  | nil => rfl
  | @piece t value ts items lexeme _ ih =>
    have step : Progress.step ⟨f :: fs, none⟩ t =
        .ok ⟨{ f with children := .text value t.source :: f.children } :: fs, none⟩ := by
      rcases lexeme with lexeme | lexeme <;> rw [Progress.step, lexeme] <;> rfl
    rw [FirstFailure.foldlM_cons_of_ok step, ih]
    simp
  | @aside t ts items lexeme _ ih =>
    have step : Progress.step ⟨f :: fs, none⟩ t =
        .ok ⟨{ f with children := .aside t.source :: f.children } :: fs, none⟩ := by
      rw [Progress.step, lexeme]
      rfl
    rw [FirstFailure.foldlM_cons_of_ok step, ih]
    simp
  | @empty t name attributes ts items lexeme _ ih =>
    let e : Item := .element name attributes [] t.source []
    have step : Progress.step ⟨f :: fs, none⟩ t =
        .ok ⟨{ f with children := e :: f.children } :: fs, none⟩ := by
      rw [Progress.step, lexeme]
      rfl
    rw [FirstFailure.foldlM_cons_of_ok step, ih]
    simp [e]
  | @element t u name attributes inside ts children items opening closing _ _ ihInside ih =>
    let e : Item := .element name attributes children t.source u.source
    have closed : Progress.step
        ⟨⟨name, attributes, t.source, children.reverse ++ []⟩ :: f :: fs, none⟩ u =
        .ok ⟨{ f with children := e :: f.children } :: fs, none⟩ := by
      rw [Progress.step_closing closing]
      simp [Progress.add, Frame.close, e]
    rw [FirstFailure.foldlM_cons_of_ok (Progress.step_opening opening _),
      FirstFailure.foldlM_append_of_ok (ihInside _ _), FirstFailure.foldlM_cons_of_ok closed, ih]
    simp [e]

/-- Tokens that spell the children of an element are read as it between its tags. -/
theorem treeOf_eq {t u : Token} {inside : List Token} {children : List Item} {name : Name}
    {attributes : List Attribute} (h : Spells inside children)
    (opening : t.lexeme = .opening name attributes) (closing : u.lexeme = .closing name) :
    treeOf (t :: (inside ++ [u])) =
      .ok (.element name attributes children t.source u.source) := by
  let root : Item := .element name attributes children t.source u.source
  have closed : Progress.step ⟨[⟨name, attributes, t.source, children.reverse ++ []⟩], none⟩ u =
      .ok ⟨[], some root⟩ := by
    rw [Progress.step_closing closing]
    simp [Progress.add, Frame.close, root]
  have run : (t :: (inside ++ [u])).foldlM Progress.step {} = .ok ⟨[], some root⟩ := by
    rw [FirstFailure.foldlM_cons_of_ok (Progress.step_opening opening []),
      FirstFailure.foldlM_append_of_ok (h.foldlM_step _ _),
      FirstFailure.foldlM_cons_of_ok closed]
    rfl
  rw [treeOf, run]
  rfl

end Spells

/-- A text is read as the tree of its tokens, if all names in it are bound. -/
theorem read_eq_ok_iff {cs : List Char} {root : Item} : read cs = .ok root ↔
    ∃ ts, tokens cs = .ok ts ∧ treeOf ts = .ok root ∧ bindingFault? [] root = none := by
  constructor
  · intro succeeds
    obtain ⟨ts, tokenized, rest⟩ := FirstFailure.bind_eq_ok_iff.mp succeeds
    obtain ⟨tree, built, checked⟩ := FirstFailure.bind_eq_ok_iff.mp rest
    split at checked
    · cases checked
    · next bound =>
      cases checked
      exact ⟨ts, tokenized, built, bound⟩
  · rintro ⟨ts, tokenized, built, bound⟩
    refine FirstFailure.bind_eq_ok_iff.mpr
      ⟨ts, tokenized, FirstFailure.bind_eq_ok_iff.mpr ⟨root, built, ?_⟩⟩
    rw [bound]
    rfl

end MailMarkup.Xml
