/-!
# Cursors

A place in a YAML text: what is still to be read, and the line, the column and the number of
bytes before it. A line ends with a carriage return and a newline, with either alone, or with
one of three other characters, the first of which counts as a newline.
-/
namespace MailMarkup.Yaml

def isPrintable (c : Char) : Bool :=
  let n := c.toNat
  n == 9 || n == 10 || n == 13 || (0x20 ≤ n && n ≤ 0x7E) || n == 0x85 || (0xA0 ≤ n && n ≤ 0xFFFD)
    || 0x10000 ≤ n

def isBlank (c : Char) : Bool := c == ' ' || c == '\t'

def isBreak (c : Char) : Bool :=
  c == '\n' || c == '\r' || c.toNat == 0x85 || c.toNat == 0x2028 || c.toNat == 0x2029

/-- A character of anchors, handles and directives. -/
def isWordChar (c : Char) : Bool := c.isAlphanum || c == '_' || c == '-'

def byteOrderMark : Char := Char.ofNat 0xFEFF

structure Cursor where
  rest : List Char
  line : Nat := 0
  column : Nat := 0
  index : Nat := 0

/-- Whether a blank, the end of a line or the end of the text comes first. -/
def endsWord : List Char → Bool
  | [] => true
  | c :: _ => isBlank c || isBreak c

namespace Cursor

/-- How many bytes characters take. -/
def size : List Char → Nat
  | [] => 0
  | c :: cs => c.utf8Size + size cs

/-- The cursor `n` characters further on the same line. -/
def advance (c : Cursor) (n : Nat) : Cursor :=
  { c with rest := c.rest.drop n, column := c.column + n, index := c.index + size (c.rest.take n) }

def skipWhile (c : Cursor) (p : Char → Bool) : Cursor := c.advance (c.rest.takeWhile p).length

/-- The end of a line as it is kept in a scalar, and the cursor at the next line. -/
def nextLine (c : Cursor) : Option (Char × Cursor) :=
  let after (rest : List Char) (n : Nat) : Cursor := ⟨rest, c.line + 1, 0, c.index + n⟩
  match c.rest with
  | '\r' :: '\n' :: rest => some ('\n', after rest 2)
  | d :: rest =>
    if isBreak d then
      some (if d.toNat = 0x2028 ∨ d.toNat = 0x2029 then d else '\n', after rest d.utf8Size)
    else none
  | [] => none

def isAtMark (c : Cursor) (mark : Char) : Bool :=
  match c.rest with
  | x :: y :: z :: rest => c.column == 0 && x == mark && y == mark && z == mark && endsWord rest
  | _ => false

/-- Whether a mark between documents stands here. -/
def isAtDocumentMark (c : Cursor) : Bool := c.isAtMark '-' || c.isAtMark '.'

/-- The cursor after blanks and a comment, where nothing else stands on the line. -/
def endLine (c : Cursor) : Option Cursor :=
  let c := c.skipWhile isBlank
  let c := if c.rest.head? == some '#' then c.skipWhile (!isBreak ·) else c
  if c.rest = [] then some c else c.nextLine.map Prod.snd

end Cursor
end MailMarkup.Yaml
