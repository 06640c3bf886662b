import MailMarkup.Proofs.ConditionalMarks

/-!
# What clients read

Outlook reads what stands in conditional sections and takes no notice of the marks around them; for
any other client a conditional section is a comment. A text that is made of tags, of running text
and of well nested content therefore has two readings, and it is known of each piece what it does to
the elements that are open in either.
-/
namespace MailMarkup.Markup

inductive Client where
  | outlook
  | other

def startMark : List Char := startConditional.toList

def endMark : List Char := endConditional.toList

namespace Client

/-- How many characters at the start of a text the client leaves out: a mark, or a section with both
of its marks. -/
def skipped (client : Client) (cs : List Char) : Nat :=
  match client with
  | .outlook =>
    if startMark <+: cs then startMark.length
    else if endMark <+: cs then endMark.length
    else 0
  | .other => if startMark <+: cs then (lengthThrough? endMark cs).getD 0 else 0

/-- The text that is left when the first `skip` characters are left out, and after them what the
client leaves out. -/
def view (client : Client) : Nat → List Char → List Char
  | _, [] => []
  | skip + 1, _ :: cs => client.view skip cs
  | 0, c :: cs =>
    match client.skipped (c :: cs) with
    | 0 => c :: client.view 0 cs
    | skip + 1 => client.view skip cs

/-- The text that the client reads. -/
def reads (client : Client) (s : String) : List Char := client.view 0 s.toList

private theorem view_drop (client : Client) (skip : Nat) (cs : List Char) :
    client.view skip cs = client.view 0 (cs.drop skip) := by
  induction cs generalizing skip with
  | nil => cases skip <;> rfl
  | cons c cs ih =>
    cases skip with
    | zero => rfl
    | succ skip => exact ih skip

private theorem view_of_skipped {client : Client} {cs : List Char} (some : client.skipped cs ≠ 0) :
    client.view 0 cs = client.view 0 (cs.drop (client.skipped cs)) := by
  cases cs with
  | nil => rw [List.drop_nil]
  | cons c cs =>
    rw [view]
    split
    · next none => exact absurd none some
    · next skip same => rw [same, client.view_drop skip, List.drop_succ_cons]

end Client

/-- No occurrence of the mark starts in the text, whatever follows it. -/
def Avoids (mark : List Char) : List Char → Prop
  | [] => True
  | c :: cs => (∀ rest, ¬ mark <+: c :: cs ++ rest) ∧ Avoids mark cs

section Avoids

variable {mark cs others : List Char}

theorem Avoids.append (h : Avoids mark cs) (h' : Avoids mark others) :
    Avoids mark (cs ++ others) := by
  induction cs with
  | nil => exact h'
  | cons c cs ih =>
    refine ⟨fun rest => ?_, ih h.2⟩
    have kept := h.1 (others ++ rest)
    rwa [← List.append_assoc] at kept

/-- A text of tags and running text in which a mark does not occur does not hold the start of one
either: the first `>` behind a declaration is its end. -/
theorem avoids_of_read (isMark : mark = startMark ∨ mark = endMark) {place : Place}
    {unclosed unclosed' : Unclosed} (absent : ¬ mark <:+: cs)
    (read : Reader.read ⟨place, unclosed⟩ cs = some ⟨.text, unclosed'⟩) : Avoids mark cs := by
  have shape : ∃ inner, mark = '<' :: '!' :: inner ++ ['>'] ∧ '>' ∉ '<' :: '!' :: inner := by
    rcases isMark with rfl | rfl
    · exact ⟨"--[if mso | IE]".toList, by decide, by decide⟩
    · exact ⟨"[endif]--".toList, by decide, by decide⟩
  obtain ⟨inner, shape, first⟩ := shape
  induction cs generalizing place unclosed with
  | nil => trivial
  | cons c cs ih =>
    refine ⟨fun rest starts => ?_, ?_⟩
    · have longer : ¬ mark <+: c :: cs := fun front => absent front.isInfix
      have front : c :: cs <+: mark :=
        (List.prefix_or_prefix_of_prefix (List.prefix_append (c :: cs) rest) starts).resolve_right
          longer
      have short : c :: cs <+: '<' :: '!' :: inner := by
        rw [shape] at front
        refine (List.prefix_concat_iff.mp front).resolve_left fun same => longer ?_
        exact shape ▸ same ▸ List.prefix_rfl
      obtain ⟨rfl, below⟩ := List.cons_prefix_cons.mp short
      obtain ⟨nonempty, ends⟩ := Reader.declaration_ends read
      cases cs with
      | nil => exact nonempty rfl
      | cons d cs =>
        obtain ⟨rfl, -⟩ := List.cons_prefix_cons.mp below
        exact first (List.mem_cons_of_mem '<' (below.subset (ends rfl)))
    · rw [Reader.read_cons] at read
      obtain ⟨between, -, later⟩ := Option.bind_eq_some_iff.mp read
      exact ih (fun occurs => absent (occurs.trans (List.suffix_cons c cs).isInfix)) later

theorem IsCalm.absent (calm : IsCalm cs) (isMark : mark = startMark ∨ mark = endMark) :
    ¬ mark <:+: cs := by
  have hasCore : ∃ core ∈ markCores, core <:+: mark := by
    rcases isMark with rfl | rfl <;> decide +kernel
  obtain ⟨core, isCore, part⟩ := hasCore
  exact fun occurs => calm core isCore (part.trans occurs)

theorem IsCalm.avoids (calm : IsCalm cs) (isMark : mark = startMark ∨ mark = endMark)
    {place : Place} {unclosed unclosed' : Unclosed}
    (read : Reader.read ⟨place, unclosed⟩ cs = some ⟨.text, unclosed'⟩) : Avoids mark cs :=
  avoids_of_read isMark (calm.absent isMark) read

end Avoids

/-- The first mark behind a text that avoids it. -/
theorem lengthThrough?_append {mark cs : List Char} (avoids : Avoids mark cs) (nonempty : mark ≠ [])
    (rest : List Char) :
    lengthThrough? mark (cs ++ mark ++ rest) = some (cs.length + mark.length) := by
  induction cs with
  | nil =>
    obtain ⟨c, others, rfl⟩ := List.exists_cons_of_ne_nil nonempty
    have front : c :: others <+: c :: others ++ rest := List.prefix_append _ rest
    exact (if_pos front).trans (by simp)
  | cons c cs ih =>
    have later : ¬ mark <+: c :: (cs ++ mark ++ rest) := by
      simpa using avoids.1 (mark ++ rest)
    rw [List.cons_append, List.cons_append, lengthThrough?, if_neg later, ih avoids.2,
      Option.map_some, List.length_cons]
    congr 1
    omega

/-- A text in which no mark occurs is read as it stands. -/
theorem Client.view_of_calm {client : Client} {cs : List Char} (calm : IsCalm cs) :
    client.view 0 cs = cs := by
  induction cs with
  | nil => rfl
  | cons c cs ih =>
    have noStart : ¬ startMark <+: c :: cs := fun front => calm.absent (.inl rfl) front.isInfix
    have noEnd : ¬ endMark <+: c :: cs := fun front => calm.absent (.inr rfl) front.isInfix
    have kept : client.skipped (c :: cs) = 0 := by cases client <;> simp [skipped, noStart, noEnd]
    rw [view, kept]
    exact congrArg (c :: ·) (ih (calm.part (List.suffix_cons c cs).isInfix))

/-- Of the text the client sees a part, whatever follows it. -/
def Client.Sees (client : Client) (cs seen : List Char) : Prop :=
  ∀ rest, client.view 0 (cs ++ rest) = seen ++ client.view 0 rest

namespace Client.Sees

variable {client : Client} {cs others seen seenOthers : List Char}

theorem append (h : client.Sees cs seen) (h' : client.Sees others seenOthers) :
    client.Sees (cs ++ others) (seen ++ seenOthers) := by
  intro rest
  rw [List.append_assoc, h, h', List.append_assoc]

/-- A text without marks is seen by everyone. -/
theorem of_avoids (noStart : Avoids startMark cs) (noEnd : Avoids endMark cs) :
    client.Sees cs cs := by
  intro rest
  induction cs with
  | nil => rfl
  | cons c cs ih =>
    have kept : client.skipped (c :: (cs ++ rest)) = 0 := by
      have noStart : ¬ startMark <+: c :: (cs ++ rest) := noStart.1 rest
      have noEnd : ¬ endMark <+: c :: (cs ++ rest) := noEnd.1 rest
      cases client <;> simp [skipped, noStart, noEnd]
    rw [List.cons_append, view, kept]
    exact congrArg (c :: ·) (ih noStart.2 noEnd.2)

theorem startMark_outlook : Client.outlook.Sees startMark [] := by
  intro rest
  have skipped : Client.outlook.skipped (startMark ++ rest) = startMark.length := by
    rw [Client.skipped, if_pos (List.prefix_append startMark rest)]
  rw [view_of_skipped (by rw [skipped]; decide), skipped, List.drop_left, List.nil_append]

theorem endMark_outlook : Client.outlook.Sees endMark [] := by
  intro rest
  have other : ¬ startMark <+: endMark ++ rest := by
    intro front
    have both : startMark <+: endMark ∨ endMark <+: startMark :=
      List.prefix_or_prefix_of_prefix front (List.prefix_append endMark rest)
    exact absurd both (by decide +kernel)
  have skipped : Client.outlook.skipped (endMark ++ rest) = endMark.length := by
    rw [Client.skipped, if_neg other, if_pos (List.prefix_append endMark rest)]
  rw [view_of_skipped (by rw [skipped]; decide), skipped, List.drop_left, List.nil_append]

/-- Other clients do not see a section, up to its first end mark. -/
theorem section_other (avoids : Avoids endMark cs) :
    Client.other.Sees (startMark ++ cs ++ endMark) [] := by
  intro rest
  have declaration : Reader.read ⟨.text, []⟩ startMark = some ⟨.text, []⟩ := by decide +kernel
  have start : Avoids endMark startMark :=
    avoids_of_read (.inr rfl) (by decide +kernel) declaration
  have skipped : Client.other.skipped (startMark ++ cs ++ endMark ++ rest) =
      (startMark ++ cs ++ endMark).length := by
    have front : startMark <+: startMark ++ cs ++ endMark ++ rest := by simp
    rw [Client.skipped, if_pos front, lengthThrough?_append (start.append avoids) (by decide),
      Option.getD_some, ← List.length_append]
  have some : (startMark ++ cs ++ endMark).length ≠ 0 := by
    rw [List.length_append]
    have mark : 0 < endMark.length := by decide +kernel
    omega
  rw [view_of_skipped (by rw [skipped]; exact some), skipped, List.drop_left, List.nil_append]

end Client.Sees

end MailMarkup.Markup
