import MailMarkup.Proofs.TreeSource

/-!
# Extents of elements

The extent of an element in tokens is what stands between its tags. Tags match each other in only
one way, so the elements that stand side by side in tokens are determined by the tokens.
-/
namespace MailMarkup.Xml

namespace Token

def isTag (t : Token) : Bool :=
  match t.lexeme with
  | .opening .. => true
  | .empty .. => true
  | .closing _ => true
  | _ => false

end Token

/-- An element with the tokens between its tags, of which a self-closed one has none. -/
structure Extent where
  name : Name
  inside : List Token

/-- The element stands in the tokens, with its tags around what is inside. -/
def Extent.IsIn (x : Extent) (ts : List Token) : Prop :=
  ∃ before t after attributes,
    (t.lexeme = .empty x.name attributes ∧ x.inside = [] ∧ ts = before ++ t :: after) ∨
    (t.lexeme = .opening x.name attributes ∧ ∃ u : Token, u.lexeme = .closing x.name ∧
      ts = before ++ t :: (x.inside ++ u :: after))

theorem Extent.IsIn.append {x : Extent} {ts : List Token} (h : x.IsIn ts)
    (before after : List Token) : x.IsIn (before ++ ts ++ after) := by
  obtain ⟨first, t, last, attributes, split⟩ := h
  refine ⟨before ++ first, t, last ++ after, attributes, ?_⟩
  rcases split with ⟨lexeme, inside, rfl⟩ | ⟨opening, u, closing, rfl⟩
  · exact .inl ⟨lexeme, inside, by simp⟩
  · exact .inr ⟨opening, u, closing, by simp⟩

theorem Extent.IsIn.behind {x : Extent} {ts : List Token} (h : x.IsIn ts) (before : List Token) :
    x.IsIn (before ++ ts) := by
  simpa using h.append before []

theorem Extent.IsIn.subset {x : Extent} {ts : List Token} (h : x.IsIn ts) : x.inside ⊆ ts := by
  obtain ⟨before, t, after, attributes, ⟨-, inside, -⟩ | ⟨-, u, -, rfl⟩⟩ := h
  · simp [inside]
  · intro t member
    simp [member]

/-- An element inside another one stands where that one does. -/
theorem Extent.IsIn.trans {x y : Extent} {ts : List Token} (h : x.IsIn y.inside)
    (outer : y.IsIn ts) : x.IsIn ts := by
  obtain ⟨before, t, after, attributes, split⟩ := outer
  rcases split with ⟨-, empty, -⟩ | ⟨-, u, -, rfl⟩
  · rw [empty] at h
    obtain ⟨_, _, _, _, ⟨_, _, split⟩ | ⟨_, _, _, split⟩⟩ := h <;> simp at split
  · rw [List.append_cons, ← List.append_assoc]
    exact h.append _ _

/-- The elements that stand side by side in tokens, whatever texts and asides are between them. -/
inductive Extents : List Token → List Extent → Prop
  | nil : Extents [] []
  | skip {t : Token} {ts : List Token} {es : List Extent} :
      t.isTag = false → Extents ts es → Extents (t :: ts) es
  | empty {t : Token} {name : Name} {attributes : List Attribute} {ts : List Token}
      {es : List Extent} :
      t.lexeme = .empty name attributes → Extents ts es → Extents (t :: ts) (⟨name, []⟩ :: es)
  | element {t u : Token} {name : Name} {attributes : List Attribute} {inside ts : List Token}
      {inner es : List Extent} :
      t.lexeme = .opening name attributes → u.lexeme = .closing name → Extents inside inner →
      Extents ts es → Extents (t :: (inside ++ u :: ts)) (⟨name, inside⟩ :: es)

namespace Extents

/-- No closing tag without its opening tag stands at the front. -/
theorem not_closing {t : Token} {ts : List Token} {es : List Extent} (h : Extents (t :: ts) es)
    (name : Name) : t.lexeme ≠ .closing name := by
  intro closing
  cases h with
  | skip other => simp [Token.isTag, closing] at other
  | empty lexeme => cases closing.symm.trans lexeme
  | element lexeme => cases closing.symm.trans lexeme

/-- Tokens followed by a closing tag begin with the same token as what makes up the same list. -/
theorem exists_tail {t u : Token} {ts ts' rest rest' : List Token} {es : List Extent} {name : Name}
    (h : Extents (t :: ts) es) (closing : u.lexeme = .closing name)
    (same : t :: ts ++ rest = ts' ++ u :: rest') :
    ∃ tail, ts' = t :: tail ∧ ts ++ rest = tail ++ u :: rest' := by
  rw [List.cons_append] at same
  cases ts' with
  | nil =>
    cases same
    exact absurd closing (h.not_closing name)
  | cons t' tail =>
    obtain ⟨rfl, behind⟩ := List.cons.inj same
    exact ⟨tail, rfl, behind⟩

/-- Two lists of tokens end at the same place if each is followed by a closing tag that has no
opening tag in it. The induction goes inside of an element, whose tokens are followed by its own
closing tag. -/
theorem unique_of_closing {ts ts' rest rest' : List Token} {es es' : List Extent} {u u' : Token}
    {name name' : Name} (first : Extents ts es) (second : Extents ts' es')
    (closing : u.lexeme = .closing name) (closing' : u'.lexeme = .closing name')
    (same : ts ++ u :: rest = ts' ++ u' :: rest') : ts = ts' ∧ es = es' := by
  induction first generalizing ts' es' rest rest' u u' name name' with
  | nil =>
    cases ts' with
    | nil =>
      cases second
      cases same
      exact ⟨rfl, rfl⟩
    | cons t tail =>
      cases same
      exact absurd closing (second.not_closing name)
  | skip other others ih =>
    obtain ⟨tail, rfl, behind⟩ := exists_tail (.skip other others) closing' same
    cases second with
    | skip _ second =>
      obtain ⟨rfl, rfl⟩ := ih second closing closing' behind
      exact ⟨rfl, rfl⟩
    | empty lexeme => simp [Token.isTag, lexeme] at other
    | element lexeme => simp [Token.isTag, lexeme] at other
  | empty lexeme others ih =>
    obtain ⟨tail, rfl, behind⟩ := exists_tail (.empty lexeme others) closing' same
    cases second with
    | skip other => simp [Token.isTag, lexeme] at other
    | empty lexeme' second =>
      cases lexeme.symm.trans lexeme'
      obtain ⟨rfl, rfl⟩ := ih second closing closing' behind
      exact ⟨rfl, rfl⟩
    | element lexeme' => cases lexeme.symm.trans lexeme'
  | element opening ending inside others ihInside ih =>
    obtain ⟨tail, rfl, behind⟩ := exists_tail (.element opening ending inside others) closing' same
    cases second with
    | skip other => simp [Token.isTag, opening] at other
    | empty lexeme' => cases opening.symm.trans lexeme'
    | element opening' ending' inside' second =>
      cases opening.symm.trans opening'
      rw [List.append_assoc, List.append_assoc, List.cons_append, List.cons_append] at behind
      obtain ⟨rfl, rfl⟩ := ihInside inside' ending ending' behind
      obtain ⟨rfl, after⟩ := List.cons.inj (List.append_cancel_left behind)
      obtain ⟨rfl, rfl⟩ := ih second closing closing' after
      exact ⟨rfl, rfl⟩

theorem isIn {ts : List Token} {es : List Extent} (h : Extents ts es) : ∀ x ∈ es, x.IsIn ts := by
  induction h with
  | nil => exact nofun
  | @skip t _ _ _ _ ih =>
    exact fun x member => (ih x member).behind [t]
  | @empty t _ attributes ts _ lexeme _ ih =>
    refine List.forall_mem_cons.mpr ⟨⟨[], t, ts, attributes, .inl ⟨lexeme, rfl, rfl⟩⟩, ?_⟩
    exact fun x member => (ih x member).behind [t]
  | @element t u _ attributes inside ts _ _ opening closing _ _ _ ih =>
    refine List.forall_mem_cons.mpr
      ⟨⟨[], t, ts, attributes, .inr ⟨opening, u, closing, rfl⟩⟩, ?_⟩
    intro x member
    have later := (ih x member).behind (t :: (inside ++ [u]))
    rwa [List.cons_append, List.append_assoc, List.cons_append] at later

/-- The elements that stand side by side in tokens are determined. -/
theorem unique {ts : List Token} {es es' : List Extent} (first : Extents ts es)
    (second : Extents ts es') : es = es' := by
  let mark : Token := ⟨.closing ⟨[], []⟩, []⟩
  have ends : ts ++ mark :: [] = ts ++ mark :: [] := rfl
  exact (unique_of_closing first second rfl rfl ends).2

end Extents

end MailMarkup.Xml
