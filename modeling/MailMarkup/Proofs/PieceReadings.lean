import MailMarkup.Proofs.ClientViews

/-!
# Readings of pieces

What a piece of markup does to the open elements is known without a look at the values of its tags.
For Outlook the tags of a conditional section count like any others, for other clients they do
nothing. A list of pieces does what its pieces do one after the other.
-/
namespace MailMarkup.Markup

namespace Client

/-- Of the text the client sees running text and tags that lead from the one list of open elements
to the other. -/
def Carries (client : Client) (cs : List Char) (unclosed unclosed' : Unclosed) : Prop :=
  ∃ seen, client.Sees cs seen ∧ Reader.read ⟨.text, unclosed⟩ seen = some ⟨.text, unclosed'⟩

namespace Carries

variable {client : Client} {cs others : List Char} {unclosed unclosed' unclosed'' : Unclosed}

theorem nil : client.Carries [] unclosed unclosed := ⟨[], fun _ => rfl, rfl⟩

theorem append (h : client.Carries cs unclosed unclosed')
    (h' : client.Carries others unclosed' unclosed'') :
    client.Carries (cs ++ others) unclosed unclosed'' := by
  obtain ⟨seen, sees, read⟩ := h
  obtain ⟨seen', sees', read'⟩ := h'
  refine ⟨seen ++ seen', sees.append sees', ?_⟩
  rw [Reader.read_append, read, Option.bind_some, read']

/-- A text without marks means the same to all clients. -/
theorem of_read (calm : IsCalm cs)
    (read : Reader.read ⟨.text, unclosed⟩ cs = some ⟨.text, unclosed'⟩) :
    client.Carries cs unclosed unclosed' :=
  ⟨cs, .of_avoids (calm.avoids (.inl rfl) read) (calm.avoids (.inr rfl) read), read⟩

theorem line : client.Carries ['\n'] unclosed unclosed := of_read (by decide) rfl

end Carries

/-- For the client the text is well nested, and on lines of its own it may stand in any element. -/
structure Nests (client : Client) (s : String) : Prop where
  alone : IsWellNested (client.reads s)
  within : ∀ unclosed, client.Carries (s.toList ++ ['\n']) unclosed unclosed

namespace Nests

variable {client : Client} {s : String}

theorem of_content (nested : IsWellNested s.toList) (calm : IsCalm s.toList) : client.Nests s where
  alone := by rwa [reads, view_of_calm calm]
  within := fun unclosed => .of_read ((IsCalm.append_cons_iff (by decide)).mpr ⟨calm, by decide⟩)
    (nested.read_line unclosed)

theorem of_carries (carries : ∀ unclosed, client.Carries s.toList unclosed unclosed) :
    client.Nests s where
  alone := by
    obtain ⟨seen, sees, read⟩ := carries []
    have all := sees []
    have nothing : client.view 0 [] = [] := rfl
    rw [List.append_nil, nothing, List.append_nil] at all
    exact ⟨.text, by rw [reads, all, read], rfl⟩
  within := fun unclosed => (carries unclosed).append .line

end Nests
end Client

namespace Tag

private theorem exists_settle (t : Tag) :
    ∃ unclosed unclosed', t.settle unclosed = some unclosed' := by
  cases t with
  | opening name attributes => exact ⟨[], _, rfl⟩
  | closing name => exact ⟨[name.toList], [], if_pos rfl⟩
  | void name attributes => exact ⟨[], [], rfl⟩

private theorem avoids_text {t : Tag} (calm : t.IsCalm) {mark : List Char}
    (isMark : mark = startMark ∨ mark = endMark) : Avoids mark t.text.toList := by
  obtain ⟨unclosed, unclosed', settled⟩ := t.exists_settle
  have read := read_text calm.isPlain unclosed
  rw [settled] at read
  exact (isCalm_text calm).avoids isMark read

def settleAll (tags : List Tag) (unclosed : Unclosed) : Option Unclosed :=
  tags.foldlM (fun unclosed t => t.settle unclosed) unclosed

end Tag

section Tags

variable {tags : List Tag} (calm : ∀ t ∈ tags, t.IsCalm)
include calm

private theorem read_tags (unclosed : Unclosed) :
    Reader.read ⟨.text, unclosed⟩ (String.join (tags.map Tag.text)).toList =
      (Tag.settleAll tags unclosed).map (Reader.mk .text) := by
  induction tags generalizing unclosed with
  | nil => rfl
  | cons t tags ih =>
    obtain ⟨here, below⟩ := List.forall_mem_cons.mp calm
    rw [List.map_cons, String.join_cons, String.toList_append, Reader.read_append,
      Tag.read_text here.isPlain, Tag.settleAll, List.foldlM_cons]
    cases t.settle unclosed with
    | none => rfl
    | some between => exact ih below between

private theorem avoids_tags {mark : List Char} (isMark : mark = startMark ∨ mark = endMark) :
    Avoids mark (String.join (tags.map Tag.text)).toList := by
  induction tags with
  | nil => trivial
  | cons t tags ih =>
    obtain ⟨here, below⟩ := List.forall_mem_cons.mp calm
    rw [List.map_cons, String.join_cons, String.toList_append]
    exact (Tag.avoids_text here isMark).append (ih below)

end Tags

namespace Piece

/-- What the piece does to the open elements for the client. -/
def settle (client : Client) (unclosed : Unclosed) : Piece → Option Unclosed
  | .tag t => t.settle unclosed
  | .outlook tags =>
    match client with
    | .outlook => Tag.settleAll tags unclosed
    | .other => some unclosed
  | .text _ => some unclosed

/-- No conditional mark is in the piece, and a text in it is running text. -/
def IsCalm : Piece → Prop
  | .tag t => t.IsCalm
  | .outlook tags => ∀ t ∈ tags, t.IsCalm
  | .text s => HasNoAngle s

@[simp] theorem isCalm_opening (name : String) (attributes : Attributes) :
    (opening name attributes).IsCalm ↔
      (IsName name ∧ name ∉ voidNames) ∧ ∀ a ∈ attributes, IsName a.1 ∧ IsCalmValue a.2 :=
  Iff.rfl

@[simp] theorem isCalm_closing (name : String) : (closing name).IsCalm ↔ IsName name := Iff.rfl

@[simp] theorem isCalm_outlook (tags : List Tag) :
    (outlook tags).IsCalm ↔ ∀ t ∈ tags, t.IsCalm := Iff.rfl

@[simp] theorem isCalm_line : line.IsCalm := by
  have plain : HasNoAngle "\n" := by decide
  exact plain

variable {client : Client} {unclosed unclosed' : Unclosed}

private theorem carries_conditional {tags : List Tag} (calm : ∀ t ∈ tags, t.IsCalm)
    (settled : (Piece.outlook tags).settle client unclosed = some unclosed') :
    client.Carries (Piece.outlook tags).html.toList unclosed unclosed' := by
  have written : (Piece.outlook tags).html.toList =
      startMark ++ (String.join (tags.map Tag.text)).toList ++ endMark := by
    rw [html, conditional, String.toList_append, String.toList_append]
    rfl
  have noStart := avoids_tags calm (.inl rfl)
  have noEnd := avoids_tags calm (.inr rfl)
  rw [written]
  cases client with
  | outlook =>
    have settled : Tag.settleAll tags unclosed = some unclosed' := settled
    refine ⟨(String.join (tags.map Tag.text)).toList, ?_, by rw [read_tags calm, settled]; rfl⟩
    have sees := (Client.Sees.startMark_outlook.append (.of_avoids noStart noEnd)).append
      .endMark_outlook
    simpa using sees
  | other =>
    cases settled
    exact ⟨[], .section_other noEnd, rfl⟩

theorem carries {p : Piece} (calm : p.IsCalm)
    (settled : p.settle client unclosed = some unclosed') :
    client.Carries p.html.toList unclosed unclosed' := by
  cases p with
  | tag t =>
    have settled : t.settle unclosed = some unclosed' := settled
    exact .of_read (Tag.isCalm_text calm) (by rw [html, Tag.read_text calm.isPlain, settled]; rfl)
  | outlook tags => exact carries_conditional calm settled
  | text s =>
    cases settled
    exact .of_read (.of_no_angle calm) (Reader.read_running (fun c member => (calm c member).1) _)

end Piece

/-- Pieces do one after the other what each of them does. -/
theorem carries_html {client : Client} {pieces : List Piece} {unclosed unclosed' : Unclosed}
    (calm : ∀ p ∈ pieces, p.IsCalm)
    (settled : pieces.foldlM (Piece.settle client) unclosed = some unclosed') :
    client.Carries (html pieces).toList unclosed unclosed' := by
  induction pieces generalizing unclosed with
  | nil =>
    cases settled
    exact .nil
  | cons p pieces ih =>
    obtain ⟨here, below⟩ := List.forall_mem_cons.mp calm
    rw [List.foldlM_cons] at settled
    obtain ⟨between, first, rest⟩ := Option.bind_eq_some_iff.mp settled
    rw [html, List.map_cons, String.join_cons, String.toList_append]
    exact (Piece.carries here first).append (ih below rest)

end MailMarkup.Markup
