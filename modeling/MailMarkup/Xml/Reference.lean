import MailMarkup.Xml.Char
import MailMarkup.Xml.Fault

/-!
# Character references

A reference stands for one character: by number, or by one of five names. What it stands for is
never changed any further; the characters around it are, since lines end in a single newline in
texts and separators are spaces in attribute values.
-/
namespace MailMarkup.Xml

/-- A character of a text, or one that a reference stands for. -/
inductive Chunk where
  | plain (c : Char)
  | referenced (c : Char)
  deriving DecidableEq

def hexDigit? (c : Char) : Option Nat :=
  if c.isDigit then some (c.toNat - '0'.toNat)
  else if 'a' ≤ c ∧ c ≤ 'f' then some (c.toNat - 'a'.toNat + 10)
  else if 'A' ≤ c ∧ c ≤ 'F' then some (c.toNat - 'A'.toNat + 10)
  else none

def decimalDigit? (c : Char) : Option Nat :=
  if c.isDigit then some (c.toNat - '0'.toNat) else none

def number? (base : Nat) (digit? : Char → Option Nat) (cs : List Char) : Option Nat :=
  if cs = [] then none
  else (cs.mapM digit?).map (·.foldl (fun n d => base * n + d) 0)

/-- The character of a number; a number that no character has stands for a replacement. -/
def charOf? (n : Nat) : Option Char :=
  let c := if n.isValidChar then Char.ofNat n else Char.ofNat 0xFFFD
  if n < 0x100000000 ∧ isAllowed c then some c else none

/-- The character that the text between an ampersand and a semicolon names. -/
def referent? : List Char → Option Char
  | '#' :: 'x' :: digits => (number? 16 hexDigit? digits).bind charOf?
  | '#' :: digits => (number? 10 decimalDigit? digits).bind charOf?
  | ['q', 'u', 'o', 't'] => some '"'
  | ['a', 'p', 'o', 's'] => some '\''
  | ['a', 'm', 'p'] => some '&'
  | ['l', 't'] => some '<'
  | ['g', 't'] => some '>'
  | _ => none

def isNotSemicolon (c : Char) : Bool := c != ';'

def chunks : List Char → Except Fault (List Chunk)
  | [] => .ok []
  | c :: cs =>
    if c = '&' then
      match referent? (cs.takeWhile isNotSemicolon), _h : cs.dropWhile isNotSemicolon with
      | some referent, _ :: rest => (chunks rest).map (.referenced referent :: ·)
      | _, _ => .error .badReference
    else (chunks cs).map (.plain c :: ·)
termination_by cs => cs.length
decreasing_by
  · have shorter := (List.dropWhile_suffix (l := cs) isNotSemicolon).length_le
    rw [_h] at shorter
    simp only [List.length_cons] at shorter ⊢
    omega
  · simp

/-- A separator in an attribute value is a space, and the end of a line is one separator. -/
def valueOf : List Chunk → List Char
  | [] => []
  | .referenced c :: rest => c :: valueOf rest
  | .plain '\r' :: .plain '\n' :: rest => ' ' :: valueOf rest
  | .plain c :: rest => (if isSpace c then ' ' else c) :: valueOf rest

/-- A character of a text joins what is already written, newest first: a carriage return that
stands before it becomes the end of a line. -/
def pushText (atEnd : Bool) (c : Char) : List Char → List Char
  | '\r' :: written =>
    if c = '\n' then '\n' :: written
    else if atEnd && c == '\r' then '\n' :: '\n' :: written
    else c :: '\n' :: written
  | written => if atEnd && c == '\r' then '\n' :: written else c :: written

/-- The text of chunks. The character after a reference is kept as it is, too. -/
def textFrom (kept : Bool) (written : List Char) : List Chunk → List Char
  | [] => written.reverse
  | .referenced c :: rest => textFrom true (c :: written) rest
  | .plain c :: rest =>
    if kept then textFrom false (c :: written) rest
    else textFrom false (pushText rest.isEmpty c written) rest

def textOf (cs : List Chunk) : List Char := textFrom false [] cs

end MailMarkup.Xml
