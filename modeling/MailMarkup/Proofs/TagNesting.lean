import MailMarkup.Markup.Piece
import MailMarkup.Proofs.BlankTrimming

/-!
# Nested tags

A reader goes through a markup text character by character and keeps the names of the elements that
are open. A double quote in a tag starts a value in which no character counts but the next double
quote. What a reader does to a piece of text does not depend on the elements around it, so well
nested pieces may be put next to each other and into each other.
-/
namespace MailMarkup.Markup
open Text

/-- Names of open elements, the innermost first. -/
abbrev Unclosed := List (List Char)

/-- The elements that have no closing tag. -/
def voidNames : List String :=
  ["area", "base", "br", "col", "embed", "hr", "img", "input", "link", "meta", "param", "source",
   "track", "wbr"]

/-- The name at the start of a tag, in small letters. -/
def tagName (cs : List Char) : List Char :=
  (cs.takeWhile fun c => !isBlank c && c != '/').map Char.toLower

def close (name : List Char) : Unclosed → Option Unclosed
  | innermost :: rest => if innermost = name then some rest else none
  | [] => none

/-- An element without content: one that ends in a slash, or one of the void elements. -/
def isComplete (inner : List Char) : Bool :=
  inner.getLast? == some '/' || (voidNames.map String.toList).contains (tagName inner)

/-- The open elements after a tag, of which the text between `<` and `>` is given. A declaration
opens and closes nothing. -/
def settle (inner : List Char) (unclosed : Unclosed) : Option Unclosed :=
  match inner with
  | '/' :: name => close (tagName name) unclosed
  | '!' :: _ | '?' :: _ => some unclosed
  | _ => some (if isComplete inner then unclosed else tagName inner :: unclosed)

/-- Where a reader stands: in running text, behind a `<` that may start a tag, or in a tag, of which
it has read the text in reverse. -/
inductive Place where
  | text
  | angle
  | tag (quoted : Bool) (seen : List Char)
  deriving DecidableEq

structure Reader where
  place : Place
  unclosed : Unclosed
  deriving DecidableEq

/-- A `<` before any other character is running text. -/
def startsTag (c : Char) : Bool := c.isAlpha || c == '/' || c == '!' || c == '?'

section Letters

variable {c : Char}

private theorem bounds_of_isLower (lower : c.isLower = true) : 97 ≤ c.toNat ∧ c.toNat ≤ 122 := by
  obtain ⟨least, most⟩ := Bool.and_eq_true_iff.mp lower
  exact ⟨of_decide_eq_true least, of_decide_eq_true most⟩

private theorem bounds_of_isUpper (upper : c.isUpper = true) : 65 ≤ c.toNat ∧ c.toNat ≤ 90 :=
  of_decide_eq_true upper

private theorem bounds_of_startsTag (starts : startsTag c = true) :
    33 ≤ c.toNat ∧ c.toNat ≤ 122 := by
  simp only [startsTag, Bool.or_eq_true, beq_iff_eq] at starts
  rcases starts with ((letter | rfl) | rfl) | rfl
  · rcases Bool.or_eq_true_iff.mp letter with upper | lower
    · have := bounds_of_isUpper upper
      omega
    · have := bounds_of_isLower lower
      omega
  · decide
  · decide
  · decide

theorem startsTag_of_isLower (lower : c.isLower = true) : startsTag c = true := by
  have letter : c.isAlpha = true := Bool.or_eq_true_iff.mpr (.inr lower)
  simp [startsTag, letter]

theorem toLower_of_isLower (lower : c.isLower = true) : c.toLower = c := by
  refine dif_neg fun upper => ?_
  have := bounds_of_isUpper (decide_eq_true upper)
  have := bounds_of_isLower lower
  omega

end Letters

namespace Reader

def step (r : Reader) (c : Char) : Option Reader :=
  match r.place with
  | .text => some ⟨if c = '<' then .angle else .text, r.unclosed⟩
  | .angle =>
    some ⟨if c = '<' then .angle else if startsTag c then .tag false [c] else .text, r.unclosed⟩
  | .tag quoted seen =>
    if c = '>' ∧ quoted = false then (settle seen.reverse r.unclosed).map (Reader.mk .text)
    else some ⟨.tag (quoted != (c == '"')) (c :: seen), r.unclosed⟩

def read (r : Reader) (cs : List Char) : Option Reader := cs.foldlM step r

@[simp] theorem read_nil (r : Reader) : r.read [] = some r := rfl

theorem read_cons (r : Reader) (c : Char) (cs : List Char) :
    r.read (c :: cs) = (r.step c).bind (read · cs) := rfl

theorem read_append (r : Reader) (cs others : List Char) :
    r.read (cs ++ others) = (r.read cs).bind (read · others) := List.foldlM_append

end Reader

def Place.isInTag : Place → Bool
  | .tag .. => true
  | _ => false

/-- The text is made of running text and of tags that are properly nested, with none left open. -/
def IsWellNested (cs : List Char) : Prop :=
  ∃ place, Reader.read ⟨.text, []⟩ cs = some ⟨place, []⟩ ∧ place.isInTag = false

instance (cs : List Char) : Decidable (IsWellNested cs) :=
  decidable_of_iff
    ((Reader.read ⟨.text, []⟩ cs).any (fun r => r.unclosed.isEmpty && !r.place.isInTag) = true) <| by
      rw [IsWellNested]
      cases Reader.read ⟨.text, []⟩ cs with
      | none => simp
      | some r =>
        obtain ⟨place, unclosed⟩ := r
        simp [and_assoc]

/-- Elements may not overlap; what looks like a tag in a value is none. -/
example : ¬ IsWellNested "<b><i></b></i>".toList ∧
    IsWellNested "<b class=\"</b>\">1 < 2<br></b>".toList := by decide +kernel

section Frame

variable {place place' : Place} {unclosed unclosed' : Unclosed} {c : Char} {cs : List Char}

private theorem close_append {name : List Char} (h : close name unclosed = some unclosed')
    (around : Unclosed) : close name (unclosed ++ around) = some (unclosed' ++ around) := by
  cases unclosed with
  | nil => cases h
  | cons innermost rest =>
    rw [close] at h
    split at h
    · next same =>
      cases h
      exact if_pos same
    · cases h

private theorem settle_append {inner : List Char} (h : settle inner unclosed = some unclosed')
    (around : Unclosed) : settle inner (unclosed ++ around) = some (unclosed' ++ around) := by
  unfold settle at h ⊢
  split at h
  · exact close_append h around
  · cases h
    rfl
  · cases h
    rfl
  · cases h
    split <;> rfl

namespace Reader

private theorem step_append (h : step ⟨place, unclosed⟩ c = some ⟨place', unclosed'⟩)
    (around : Unclosed) :
    step ⟨place, unclosed ++ around⟩ c = some ⟨place', unclosed' ++ around⟩ := by
  cases place with
  | text =>
    cases h
    rfl
  | angle =>
    cases h
    rfl
  | tag quoted seen =>
    unfold step at h ⊢
    dsimp only at h ⊢
    split at h
    · next ends =>
      obtain ⟨_, settled, same⟩ := Option.map_eq_some_iff.mp h
      cases same
      rw [if_pos ends, settle_append settled]
      rfl
    · next goes =>
      cases h
      rw [if_neg goes]

/-- Elements that are open around a text change nothing while it is read. -/
theorem read_append_unclosed (h : read ⟨place, unclosed⟩ cs = some ⟨place', unclosed'⟩)
    (around : Unclosed) :
    read ⟨place, unclosed ++ around⟩ cs = some ⟨place', unclosed' ++ around⟩ := by
  induction cs generalizing place unclosed with
  | nil =>
    cases h
    rfl
  | cons c cs ih =>
    rw [read_cons] at h ⊢
    obtain ⟨⟨between, opened⟩, first, rest⟩ := Option.bind_eq_some_iff.mp h
    rw [step_append first around, Option.bind_some]
    exact ih rest

end Reader

end Frame

namespace Reader

variable {unclosed unclosed' : Unclosed} {cs : List Char}

/-- A tag ends with a `>`. -/
theorem mem_of_read_tag {quoted : Bool} {seen : List Char}
    (h : read ⟨.tag quoted seen, unclosed⟩ cs = some ⟨.text, unclosed'⟩) : '>' ∈ cs := by
  induction cs generalizing quoted seen with
  | nil => cases h
  | cons c cs ih =>
    rw [read_cons, step] at h
    dsimp only at h
    split at h
    · next ends =>
      rw [ends.1]
      exact List.mem_cons_self
    · exact List.mem_cons_of_mem c (ih h)

/-- A text that ends as running text does not end in a `<`, and a declaration in it ends too. -/
theorem declaration_ends {place : Place}
    (h : read ⟨place, unclosed⟩ ('<' :: cs) = some ⟨.text, unclosed'⟩) :
    cs ≠ [] ∧ (cs.head? = some '!' → '>' ∈ cs) := by
  rw [read_cons] at h
  obtain ⟨⟨between, _⟩, first, later⟩ := Option.bind_eq_some_iff.mp h
  cases between with
  | text => cases place <;> simp [step] at first
  | tag quoted seen =>
    have ends := mem_of_read_tag later
    exact ⟨List.ne_nil_of_mem ends, fun _ => ends⟩
  | angle =>
    cases cs with
    | nil => cases later
    | cons d cs =>
      refine ⟨List.cons_ne_nil d cs, fun declaration => ?_⟩
      cases declaration
      exact List.mem_cons_of_mem '!' (mem_of_read_tag later)

/-- Running text without a `<` is passed over. -/
theorem read_running (running : ∀ c ∈ cs, c ≠ '<') (unclosed : Unclosed) :
    read ⟨.text, unclosed⟩ cs = some ⟨.text, unclosed⟩ := by
  induction cs with
  | nil => rfl
  | cons c cs ih =>
    obtain ⟨here, below⟩ := List.forall_mem_cons.mp running
    rw [read_cons, step, if_neg here]
    exact ih below

theorem isBlank_of_startsTag {c : Char} (starts : startsTag c = true) : isBlank c = false := by
  have bounds := bounds_of_startsTag starts
  simp only [isBlank, Bool.or_eq_false_iff, Bool.and_eq_false_iff, decide_eq_false_iff_not,
    beq_eq_false_iff_ne]
  omega

/-- A blank ends no tag and starts none. -/
theorem step_blank {c : Char} (blank : isBlank c = true) (place : Place) (unclosed : Unclosed) :
    ∃ place', step ⟨place, unclosed⟩ c = some ⟨place', unclosed⟩ ∧
      place'.isInTag = place.isInTag := by
  have angle : c ≠ '<' := by
    rintro rfl
    cases blank
  cases place with
  | text => exact ⟨.text, by simp [step, angle], rfl⟩
  | angle =>
    have noTag : ¬ startsTag c = true := fun starts => by
      rw [isBlank_of_startsTag starts] at blank
      cases blank
    exact ⟨.text, by simp [step, angle, noTag], rfl⟩
  | tag quoted seen =>
    have other : c ≠ '>' := by
      rintro rfl
      cases blank
    exact ⟨_, if_neg fun ends => other ends.1, rfl⟩

private theorem read_blanks (blank : ∀ c ∈ cs, isBlank c) (place : Place) (unclosed : Unclosed) :
    ∃ place', read ⟨place, unclosed⟩ cs = some ⟨place', unclosed⟩ ∧
      place'.isInTag = place.isInTag := by
  induction cs generalizing place with
  | nil => exact ⟨place, rfl, rfl⟩
  | cons c cs ih =>
    obtain ⟨here, below⟩ := List.forall_mem_cons.mp blank
    obtain ⟨between, first, kept⟩ := step_blank here place unclosed
    obtain ⟨place', rest, kept'⟩ := ih below between
    exact ⟨place', by rw [read_cons, first, Option.bind_some, rest], kept'.trans kept⟩

end Reader

namespace IsWellNested

variable {cs : List Char}

/-- Blanks around a text do not count. -/
theorem trim (nested : IsWellNested cs) : IsWellNested (trim cs) := by
  obtain ⟨place, whole, outside⟩ := nested
  obtain ⟨before, after, split, blankBefore, blankAfter⟩ := exists_blanks_around_trim cs
  have running : ∀ c ∈ before, c ≠ '<' := by
    rintro c member rfl
    exact Bool.false_ne_true (blankBefore _ member)
  rw [split, List.append_assoc, Reader.read_append, Reader.read_running running, Option.bind_some,
    Reader.read_append] at whole
  obtain ⟨⟨between, opened⟩, inner, rest⟩ := Option.bind_eq_some_iff.mp whole
  obtain ⟨last, reached, kept⟩ := Reader.read_blanks blankAfter between opened
  rw [reached] at rest
  cases rest
  exact ⟨between, inner, kept.symm.trans outside⟩

/-- A well nested text with a line end leaves the reader in running text, whatever is open. -/
theorem read_line (nested : IsWellNested cs) (unclosed : Unclosed) :
    Reader.read ⟨.text, unclosed⟩ (cs ++ ['\n']) = some ⟨.text, unclosed⟩ := by
  obtain ⟨place, whole, outside⟩ := nested
  have framed := Reader.read_append_unclosed whole unclosed
  rw [List.nil_append] at framed
  rw [Reader.read_append, framed, Option.bind_some]
  cases place with
  | text => rfl
  | angle => rfl
  | tag quoted seen => cases outside

end IsWellNested

end MailMarkup.Markup
