import MailMarkup.Yaml.Cursor

/-!
# Scalars

A scalar that goes over several lines is folded: a single end of a line between two of its parts
is a space, and of several all but the first are kept. In a block scalar only lines that are not
indented further are folded, and a literal one keeps every line as it is. The readers count down
the characters that are left, so each of them ends.
-/
namespace MailMarkup.Yaml

/-- The blanks and ends of lines between two parts of a scalar. -/
structure Gap where
  blanks : List Char := []
  isBroken : Bool := false
  first : Option Char := none
  later : List Char := []

def Gap.joined (g : Gap) : List Char :=
  if g.isBroken then
    match g.first with
    | some '\n' => if g.later = [] then [' '] else g.later
    | some c => c :: g.later
    | none => g.later
  else g.blanks

def Gap.withBlank (g : Gap) (c : Char) : Gap :=
  if g.isBroken then g else { g with blanks := g.blanks ++ [c] }

def Gap.withBreak (g : Gap) (c : Char) : Gap :=
  if g.isBroken then { g with later := g.later ++ [c] }
  else { isBroken := true, first := some c }

/-- A tab may not stand in the first `margin` columns of a line. -/
def readGap (margin : Nat) : Nat → Gap → Cursor → Option (Gap × Cursor)
  | 0, _, _ => none
  | fuel + 1, g, c =>
    match c.nextLine, c.rest with
    | some (kept, next), _ => readGap margin fuel (g.withBreak kept) next
    | none, d :: _ =>
      if !isBlank d then some (g, c)
      else if g.isBroken && d == '\t' && c.column < margin then none
      else readGap margin fuel (g.withBlank d) (c.advance 1)
    | none, [] => some (g, c)

def isFlowMark (c : Char) : Bool := [',', '[', ']', '{', '}'].contains c

/-- The part of a plain scalar that stands here, up to a blank or a mark that ends it. -/
def plainPart (inFlow : Bool) : List Char → Option (List Char)
  | [] => some []
  | c :: cs =>
    if isBlank c || isBreak c then some []
    else if inFlow && c == ':' && (cs.head?.any fun d => d == '?' || isFlowMark d) then none
    else if (c == ':' && endsWord cs) || (inFlow && isFlowMark c) then some []
    else (plainPart inFlow cs).map (c :: ·)

/-- A plain scalar and whether an end of a line follows it. Outside flow collections its lines are
indented by `margin` columns. -/
def readPlain (inFlow : Bool) (margin : Nat) :
    Nat → List Char → Gap → Cursor → Option ((List Char × Bool) × Cursor)
  | 0, _, _, _ => none
  | fuel + 1, done, gap, c =>
    let finished := some ((done, gap.isBroken), c)
    if c.isAtDocumentMark || c.rest.head? == some '#' then finished
    else
      match plainPart inFlow c.rest with
      | none => none
      | some [] => finished
      | some part =>
        let done := done ++ gap.joined ++ part
        let c := c.advance part.length
        if c.rest = [] ∨ ¬ endsWord c.rest then some ((done, false), c)
        else
          match readGap margin (c.rest.length + 1) {} c with
          | none => none
          | some (gap, c) =>
            if !inFlow && c.column < margin then some ((done, gap.isBroken), c)
            else readPlain inFlow margin fuel done gap c

def hexValue? (c : Char) : Option Nat :=
  if c.isDigit then some (c.toNat - '0'.toNat)
  else if 'a' ≤ c ∧ c ≤ 'f' then some (c.toNat - 'a'.toNat + 10)
  else if 'A' ≤ c ∧ c ≤ 'F' then some (c.toNat - 'A'.toNat + 10)
  else none

/-- The character of a hexadecimal number with exactly `size` digits. -/
def hexChar? (size : Nat) (digits : List Char) : Option Char := do
  if digits.length ≠ size then none
  let values ← digits.mapM hexValue?
  let n := values.foldl (fun n d => 16 * n + d) 0
  if n.isValidChar then some (Char.ofNat n) else none

/-- What the text after a backslash stands for, and how many characters of it do. -/
def escape? : List Char → Option (Char × Nat)
  | 'x' :: cs => (hexChar? 2 (cs.take 2)).map (·, 3)
  | 'u' :: cs => (hexChar? 4 (cs.take 4)).map (·, 5)
  | 'U' :: cs => (hexChar? 8 (cs.take 8)).map (·, 9)
  | c :: _ =>
    ([('0', 0), ('a', 7), ('b', 8), ('t', 9), ('\t', 9), ('n', 10), ('v', 11), ('f', 12),
      ('r', 13), ('e', 27), (' ', 32), ('"', 34), ('/', 47), ('\\', 92), ('N', 0x85),
      ('_', 0xA0), ('L', 0x2028), ('P', 0x2029)].lookup c).map fun n => (Char.ofNat n, 1)
  | [] => none

/-- A quoted scalar, from the character after its opening quote. -/
def readQuoted (quote : Char) : Nat → List Char → Cursor → Option (List Char × Cursor)
  | 0, _, _ => none
  | fuel + 1, done, c =>
    if c.isAtDocumentMark then none
    else
      let fold (gap : Gap) (c : Cursor) : Option (List Char × Cursor) :=
        match readGap 0 (c.rest.length + 1) gap c with
        | some (gap, c) => readQuoted quote fuel (done ++ gap.joined) c
        | none => none
      match c.rest with
      | [] => none
      | d :: rest =>
        if isBlank d || isBreak d then fold {} c
        else if d = quote then
          if quote = '\'' ∧ rest.head? = some '\'' then
            readQuoted quote fuel (done ++ ['\'']) (c.advance 2)
          else some (done, c.advance 1)
        else if quote = '"' ∧ d = '\\' then
          match (c.advance 1).nextLine with
          | some (_, next) => fold { isBroken := true } next
          | none =>
            match escape? rest with
            | some (e, n) => readQuoted quote fuel (done ++ [e]) (c.advance (n + 1))
            | none => none
        else readQuoted quote fuel (done ++ [d]) (c.advance 1)

/-- Which ends of lines a block scalar keeps at its end. -/
inductive Chomping where
  | strip | clip | keep
  deriving DecidableEq

def chomping? : Char → Option Chomping
  | '-' => some .strip
  | '+' => some .keep
  | _ => none

def indentDigit? (c : Char) : Option Nat :=
  if '1' ≤ c ∧ c ≤ '9' then some (c.toNat - '0'.toNat) else none

/-- The signs after the mark of a block scalar: how it ends and how far it is indented, in either
order, each at most once. -/
def blockSigns (cs : List Char) : (Chomping × Option Nat) × Nat :=
  match cs with
  | a :: b :: _ =>
    match chomping? a, indentDigit? b, indentDigit? a, chomping? b with
    | some x, some n, _, _ => ((x, some n), 2)
    | some x, none, _, _ => ((x, none), 1)
    | none, _, some n, some x => ((x, some n), 2)
    | none, _, some n, none => ((.clip, some n), 1)
    | none, _, none, _ => ((.clip, none), 0)
  | [a] =>
    match chomping? a, indentDigit? a with
    | some x, _ => ((x, none), 1)
    | none, some n => ((.clip, some n), 1)
    | none, none => ((.clip, none), 0)
  | [] => ((.clip, none), 0)

/-- The empty lines before a line of a block scalar, and the widest indentation met. Without an
indentation all spaces count. -/
def readEmptyLines (indent : Option Nat) :
    Nat → Nat → List Char → Cursor → Option ((List Char × Nat) × Cursor)
  | 0, _, _, _ => none
  | fuel + 1, widest, breaks, c =>
    let spaces := (c.rest.takeWhile (· == ' ')).length
    let c := c.advance (match indent with
      | some n => min spaces (n - c.column)
      | none => spaces)
    let widest := max widest c.column
    if c.rest.head? == some '\t' && (indent.all (c.column < ·)) then none
    else
      match c.nextLine with
      | some (kept, next) => readEmptyLines indent fuel widest (breaks ++ [kept]) next
      | none => some ((breaks, widest), c)

/-- The lines of a block scalar read so far, with the last end of a line and the empty lines after
it, which are not yet part of the text. -/
structure BlockLines where
  text : List Char := []
  last : List Char := []
  empty : List Char := []
  isIndented : Bool := false

def BlockLines.joint (isLiteral : Bool) (b : BlockLines) (isIndented : Bool) : List Char :=
  if !isLiteral && b.last = ['\n'] && !b.isIndented && !isIndented then
    if b.empty = [] then [' '] else b.empty
  else b.last ++ b.empty

def BlockLines.chomped (b : BlockLines) : Chomping → List Char
  | .strip => b.text
  | .clip => b.text ++ b.last
  | .keep => b.text ++ b.last ++ b.empty

def readLines (isLiteral : Bool) (indent : Nat) :
    Nat → BlockLines → Cursor → Option (BlockLines × Cursor)
  | 0, _, _ => none
  | fuel + 1, b, c =>
    if c.column ≠ indent ∨ c.rest = [] then some (b, c)
    else
      let isIndented := c.rest.head?.any isBlank
      let line := c.rest.takeWhile (!isBreak ·)
      let text := b.text ++ b.joint isLiteral isIndented ++ line
      let c := c.advance line.length
      let (last, c) := match c.nextLine with
        | some (kept, next) => ([kept], next)
        | none => ([], c)
      match readEmptyLines (some indent) (c.rest.length + 1) 0 [] c with
      | none => none
      | some ((empty, _), c) => readLines isLiteral indent fuel ⟨text, last, empty, isIndented⟩ c

/-- A block scalar, from the character after its mark. `parent` is the column of the collection
around it, if there is one. -/
def readBlock (isLiteral : Bool) (parent : Option Nat) (c : Cursor) :
    Option (List Char × Cursor) := do
  let ((chomping, sign), n) := blockSigns c.rest
  let c := c.advance n
  if c.rest.head? = some '0' then none
  let c ← c.endLine
  let given := sign.map (parent.getD 0 + ·)
  let ((empty, widest), c) ← readEmptyLines given (c.rest.length + 1) 0 [] c
  let least := match parent with
    | some column => column + 1
    | none => 1
  let indent := given.getD (max widest least)
  let (b, c) ← readLines isLiteral indent (c.rest.length + 1) { empty := empty } c
  return (b.chomped chomping, c)

end MailMarkup.Yaml
