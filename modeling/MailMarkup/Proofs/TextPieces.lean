import MailMarkup.Proofs.TreeSource
import Mathlib.Data.List.DropRight

/-!
# Pieces of text

Texts and literal sections are pieces of text. Pieces that follow each other count as one text with
the source of the first, so of those that end an element all but the first are missing in what
counts as its inner source.
-/
namespace MailMarkup.Xml

/-- A text, or a literal section. -/
def Token.isPiece (t : Token) : Bool :=
  match t.lexeme with
  | .text _ => true
  | .section _ => true
  | _ => false

/-- What does not satisfy the predicate ends the search from the right. -/
theorem rtakeWhile_append_cons {α : Type} {p : α → Bool} {u : α} (h : p u = false)
    (before after : List α) : (before ++ u :: after).rtakeWhile p = after.rtakeWhile p := by
  induction after using List.reverseRecOn with
  | nil =>
    rw [List.rtakeWhile_nil]
    exact List.rtakeWhile_concat_neg p before u (by simp [h])
  | append_singleton after x ih =>
    rw [← List.cons_append, ← List.append_assoc, List.rtakeWhile_concat, List.rtakeWhile_concat, ih]

private theorem rtakeWhile_cons_of_not_all {α : Type} {p : α → Bool} {x : α} {xs : List α}
    (h : (x :: xs).all p = false) : (x :: xs).rtakeWhile p = xs.rtakeWhile p := by
  obtain ⟨u, member, rejected⟩ := List.all_eq_false.mp h
  obtain ⟨before, after, split⟩ := List.append_of_mem member
  rw [Bool.not_eq_true] at rejected
  cases before with
  | nil =>
    cases split
    exact rtakeWhile_append_cons rejected [] xs
  | cons _ before =>
    rw [List.cons_append] at split
    obtain ⟨rfl, rfl⟩ := List.cons.inj split
    rw [rtakeWhile_append_cons rejected, ← List.cons_append, rtakeWhile_append_cons rejected]

namespace Item

private theorem inner_cons_of_all {item : Item} {items : List Item}
    (h : (item :: items).all isText = true) : inner (item :: items) = item.source := by
  rw [List.all_cons] at h
  rw [inner, upToLastText, if_pos h, sources, sources, List.append_nil]

private theorem inner_cons_of_not_all {item : Item} {items : List Item}
    (h : (item :: items).all isText = false) :
    inner (item :: items) = item.source ++ inner items := by
  rw [List.all_cons] at h
  rw [inner, upToLastText, if_neg (by simp [h]), sources, inner]

end Item

namespace Spells

private theorem all_isPiece {ts : List Token} {items : List Item} (h : Spells ts items) :
    ts.all Token.isPiece = items.all Item.isText := by
  induction h with
  | nil => rfl
  | piece lexeme _ ih =>
    rcases lexeme with lexeme | lexeme <;> simp [Token.isPiece, lexeme, ih, Item.isText]
  | aside lexeme _ _ => simp [Token.isPiece, lexeme, Item.isText]
  | empty lexeme _ _ => simp [Token.isPiece, lexeme, Item.isText]
  | element lexeme _ _ _ _ _ => simp [Token.isPiece, lexeme, Item.isText]

/-- The source of the items is what counts as their inner source, followed by the pieces that end
the tokens, without the first of these. -/
theorem inner_append {ts : List Token} {items : List Item} (h : Spells ts items) :
    Item.inner items ++ (ts.rtakeWhile Token.isPiece).tail.flatMap Token.source =
      ts.flatMap Token.source := by
  induction h with
  | nil => rfl
  | @piece t value ts items lexeme rest ih =>
    have same := all_isPiece (.piece lexeme rest)
    cases pieces : (t :: ts).all Token.isPiece with
    | true =>
      have whole : (t :: ts).rtakeWhile Token.isPiece = t :: ts :=
        List.rtakeWhile_eq_self_iff.mpr (List.all_eq_true.mp pieces)
      rw [Item.inner_cons_of_all (same ▸ pieces), whole, List.tail_cons, List.flatMap_cons,
        Item.source]
    | false =>
      rw [Item.inner_cons_of_not_all (same ▸ pieces), rtakeWhile_cons_of_not_all pieces,
        List.append_assoc, ih, List.flatMap_cons, Item.source]
  | @aside t ts items lexeme _ ih =>
    have other : (t :: ts).all Token.isPiece = false := by simp [Token.isPiece, lexeme]
    rw [Item.inner_cons_of_not_all rfl, rtakeWhile_cons_of_not_all other, List.append_assoc, ih,
      List.flatMap_cons, Item.source]
  | @empty t _ _ ts items lexeme _ ih =>
    have other : (t :: ts).all Token.isPiece = false := by simp [Token.isPiece, lexeme]
    rw [Item.inner_cons_of_not_all rfl, rtakeWhile_cons_of_not_all other, List.append_assoc, ih,
      List.flatMap_cons, Item.source, Item.sources, List.append_nil, List.append_nil]
  | @element t u _ _ inside ts children items _ closing spells _ _ ih =>
    have other : u.isPiece = false := by simp [Token.isPiece, closing]
    have last := rtakeWhile_append_cons other (t :: inside) ts
    rw [List.cons_append] at last
    rw [Item.inner_cons_of_not_all rfl, last, List.append_assoc, ih, Item.source, spells.sources_eq]
    simp

end Spells

end MailMarkup.Xml
