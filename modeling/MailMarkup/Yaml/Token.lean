import MailMarkup.Yaml.Scalar
import MailMarkup.Yaml.Tag

/-!
# Tokens

The indicators and scalars of a YAML text, with marks where block collections begin and end.

A mapping key needs no indicator of its own: it is known by the colon after it. Whatever could
start such a key is remembered with its place among the tokens, one candidate for each open flow
collection, and the key mark is put there when the colon comes. A candidate must be followed by its
colon on the same line, and not too far away.
-/
namespace MailMarkup.Yaml

/-- How a scalar is written. -/
inductive Style where
  | plain | quoted | folded | literal
  deriving DecidableEq

inductive Token where
  | version (major minor : Nat)
  | tagSpace (handle : String) (space : Tag)
  | documentStart
  | documentEnd
  | blockSequence
  | blockMapping
  | blockEnd
  | flowSequence
  | flowSequenceEnd
  | flowMapping
  | flowMappingEnd
  | blockEntry
  | flowEntry
  | key
  | value
  | alias (name : String)
  | anchor (name : String)
  | tag (handle : String) (suffix : Tag)
  | scalar (style : Style) (text : String)
  deriving DecidableEq

/-- What may turn out to be a key. A required one stands where nothing but a key can. -/
structure Candidate where
  place : Nat
  line : Nat
  column : Nat
  index : Nat
  isRequired : Bool

/-- How far the tokens have been read. The tokens are held newest first, the columns of the open
block collections and the candidates innermost first. -/
structure Scan where
  cursor : Cursor
  tokens : List Token := []
  indents : List Nat := []
  candidate : Option Candidate := none
  outer : List (Option Candidate) := []
  allowsKey : Bool := true

namespace Scan

def inFlow (s : Scan) : Bool := !s.outer.isEmpty

def indent (s : Scan) : Option Nat := s.indents.head?

/-- The least column of what belongs to the innermost block collection. -/
def margin (s : Scan) : Nat :=
  match s.indent with
  | some column => column + 1
  | none => 0

def push (s : Scan) (t : Token) : Scan := { s with tokens := t :: s.tokens }

/-- Puts a token before the one at a place counted from the first. -/
def pushAt (s : Scan) (place : Nat) (t : Token) : Scan :=
  { s with tokens := s.tokens.insertIdx (s.tokens.length - place) t }

def isStale (s : Scan) (k : Candidate) : Bool :=
  k.line < s.cursor.line || k.index + 1024 < s.cursor.index

/-- Forgets a candidate, unless its colon is missing. -/
def refuse (k : Option Candidate) : Option (Option Candidate) :=
  match k with
  | some k => if k.isRequired then none else some none
  | none => some none

def dropStale (s : Scan) : Option Scan := do
  let check (k : Option Candidate) : Option (Option Candidate) :=
    if k.any s.isStale then refuse k else some k
  let candidate ← check s.candidate
  let outer ← s.outer.mapM check
  return { s with candidate := candidate, outer := outer }

def dropCandidate (s : Scan) : Option Scan :=
  (refuse s.candidate).map fun k => { s with candidate := k }

/-- Remembers that a key may start here. -/
def saveCandidate (s : Scan) : Option Scan := do
  if !s.allowsKey then return s
  let s ← s.dropCandidate
  let c := s.cursor
  let isRequired := !s.inFlow && s.indent == some c.column
  return { s with candidate := some ⟨s.tokens.length, c.line, c.column, c.index, isRequired⟩ }

/-- Whether something at the column starts a new block collection. -/
def isDeeper (s : Scan) (column : Nat) : Bool :=
  !s.inFlow && (match s.indent with
    | some outer => decide (outer < column)
    | none => true)

def openBlock (s : Scan) (column : Nat) (t : Token) : Scan :=
  if s.isDeeper column then { s.push t with indents := column :: s.indents } else s

def openBlockAt (s : Scan) (place column : Nat) (t : Token) : Scan :=
  if s.isDeeper column then { s.pushAt place t with indents := column :: s.indents } else s

/-- Ends the block collections that lie deeper than `margin` columns. -/
def closeBlocks (s : Scan) (margin : Nat) : Scan :=
  if s.inFlow then s
  else
    let ended := s.indents.takeWhile (margin ≤ ·)
    { s with
      tokens := ended.map (fun _ => Token.blockEnd) ++ s.tokens
      indents := s.indents.drop ended.length }

/-- Moves past blanks, comments and ends of lines. A byte order mark may start a line, of which it
takes the first column. -/
def skipToToken : Nat → Scan → Scan
  | 0, s => s
  | fuel + 1, s =>
    let c := s.cursor
    let c := if c.column == 0 && c.rest.head? == some byteOrderMark then c.advance 1 else c
    let takesTabs := s.inFlow || !s.allowsKey
    let c := c.skipWhile fun d => d == ' ' || (takesTabs && d == '\t')
    let c := if c.rest.head? == some '#' then c.skipWhile (!isBreak ·) else c
    match c.nextLine with
    | some (_, next) =>
      skipToToken fuel { s with cursor := next, allowsKey := s.allowsKey || !s.inFlow }
    | none => { s with cursor := c }

/-- A token that consists of the next `n` characters. -/
def take (s : Scan) (n : Nat) (t : Token) : Scan := { s.push t with cursor := s.cursor.advance n }

def startDocument (s : Scan) : Option Scan := do
  let s ← (s.closeBlocks 0).dropCandidate
  return { s with allowsKey := false }

def openFlow (s : Scan) (t : Token) : Option Scan := do
  let s ← s.saveCandidate
  let s := s.take 1 t
  return { s with candidate := none, outer := s.candidate :: s.outer, allowsKey := true }

def closeFlow (s : Scan) (t : Token) : Option Scan := do
  let s ← s.dropCandidate
  let s := { s.take 1 t with allowsKey := false }
  match s.outer with
  | k :: rest => return { s with candidate := k, outer := rest }
  | [] => return s

def flowEntry (s : Scan) : Option Scan := do
  let s ← s.dropCandidate
  return { s.take 1 .flowEntry with allowsKey := true }

def blockEntry (s : Scan) : Option Scan := do
  if !s.inFlow && !s.allowsKey then none
  let s ← (s.openBlock s.cursor.column .blockSequence).dropCandidate
  return { s.take 1 .blockEntry with allowsKey := true }

def key (s : Scan) : Option Scan := do
  if !s.inFlow && !s.allowsKey then none
  let s ← (s.openBlock s.cursor.column .blockMapping).dropCandidate
  return { s.take 1 .key with allowsKey := !s.inFlow }

def value (s : Scan) : Option Scan :=
  match s.candidate with
  | some k =>
    let s := (s.pushAt k.place .key).openBlockAt k.place k.column .blockMapping
    some { s.take 1 .value with candidate := none, allowsKey := false }
  | none =>
    if !s.inFlow && !s.allowsKey then none
    else
      let s := s.openBlock s.cursor.column .blockMapping
      some { s.take 1 .value with allowsKey := !s.inFlow }

/-- A token that may start a key, read from the cursor. -/
def node (s : Scan) (read : Cursor → Option (Token × Cursor)) : Option Scan := do
  let s ← s.saveCandidate
  let (t, c) ← read s.cursor
  return { s.push t with cursor := c, allowsKey := false }

end Scan

def textOf (cs : List Char) : String := String.ofList cs

def readAnchor (token : String → Token) (c : Cursor) : Option (Token × Cursor) :=
  let name := (c.rest.drop 1).takeWhile isWordChar
  let after := c.advance (name.length + 1)
  let mayEnd := endsWord after.rest ||
    after.rest.head?.any fun d => ['?', ':', ',', ']', '}', '%', '@', '\x60'].contains d
  if name ≠ [] ∧ mayEnd then some (token (textOf name), after) else none

def isUriChar (inBrackets : Bool) (c : Char) : Bool :=
  isWordChar c || [';', '/', '?', ':', '@', '&', '=', '+', '$', '.', '!', '~', '*', '\'', '(',
    ')'].contains c || (inBrackets && [',', '[', ']'].contains c)

def percentByte? : List Char → Option UInt8
  | '%' :: a :: b :: _ => do return UInt8.ofNat (16 * (← hexValue? a) + (← hexValue? b))
  | _ => none

/-- How many bytes a character has that starts with the given one. -/
def characterSize? (first : UInt8) : Option Nat :=
  if first < 0x80 then some 1
  else if first < 0xC0 then none
  else if first < 0xE0 then some 2
  else if first < 0xF0 then some 3
  else if first < 0xF8 then some 4
  else none

/-- The percent-encoded bytes of one character. Only their outer form is checked: which of them
starts a character and which goes on with it. -/
def percentBytes? (cs : List Char) : Option (List UInt8) := do
  let first ← percentByte? cs
  let size ← characterSize? first
  let others ← (List.range (size - 1)).mapM fun n => percentByte? (cs.drop (3 * n + 3))
  if others.all fun b => 0x80 ≤ b && b < 0xC0 then some (first :: others) else none

/-- The longest run of URI characters, decoded. -/
def readUri (inBrackets : Bool) : Nat → List UInt8 → Cursor → Option (List UInt8 × Cursor)
  | 0, _, _ => none
  | fuel + 1, done, c =>
    match c.rest with
    | '%' :: _ =>
      match percentBytes? c.rest with
      | some bytes => readUri inBrackets fuel (done ++ bytes) (c.advance (3 * bytes.length))
      | none => none
    | d :: _ =>
      if isUriChar inBrackets d then
        readUri inBrackets fuel (done ++ [UInt8.ofNat d.toNat]) (c.advance 1)
      else some (done, c)
    | [] => some (done, c)

def readUriOf (inBrackets : Bool) (c : Cursor) : Option (List UInt8 × Cursor) :=
  readUri inBrackets (c.rest.length + 1) [] c

/-- An exclamation mark, the word after it and the mark that closes it, if there is one. -/
def handleOf (cs : List Char) : List Char :=
  let word := (cs.drop 1).takeWhile isWordChar
  if (cs.drop (word.length + 1)).head? = some '!' then '!' :: word ++ ['!'] else '!' :: word

def isNamedHandle (handle : List Char) : Bool := 1 < handle.length && handle.getLast? == some '!'

/-- A tag between angle brackets, with a handle that has a name, or with the handle of a single
exclamation mark. That mark alone is a tag of its own. -/
def readTagName (c : Cursor) : Option (Token × Cursor) := do
  match c.rest with
  | '!' :: '<' :: _ =>
    let (uri, c) ← readUriOf true (c.advance 2)
    if uri = [] ∨ c.rest.head? ≠ some '>' then none
    return (.tag "" (.ended uri), c.advance 1)
  | _ =>
    let handle := handleOf c.rest
    let (uri, c) ← readUriOf false (c.advance handle.length)
    if isNamedHandle handle then
      if uri = [] then none
      return (.tag (textOf handle) (.ended uri), c)
    else
      let suffix := Tag.ofText (textOf (handle.drop 1)) ++ Tag.ended uri
      return (if suffix.bytes = [] then .tag "" .mark else .tag "!" suffix, c)

def readTag (inFlow : Bool) (c : Cursor) : Option (Token × Cursor) := do
  let (t, c) ← readTagName c
  if endsWord c.rest ∨ (inFlow ∧ c.rest.head? = some ',') then some (t, c) else none

def readVersionNumber (c : Cursor) : Option (Nat × Cursor) :=
  let digits := c.rest.takeWhile Char.isDigit
  if digits = [] ∨ 9 < digits.length then none
  else some (digits.foldl (fun n d => 10 * n + (d.toNat - '0'.toNat)) 0, c.advance digits.length)

def readVersion (c : Cursor) : Option (Token × Cursor) := do
  let (major, c) ← readVersionNumber (c.skipWhile isBlank)
  if c.rest.head? ≠ some '.' then none
  let (minor, c) ← readVersionNumber (c.advance 1)
  return (.version major minor, c)

def readTagSpace (c : Cursor) : Option (Token × Cursor) := do
  let c := c.skipWhile isBlank
  if c.rest.head? ≠ some '!' then none
  let handle := handleOf c.rest
  if handle ≠ ['!'] ∧ ¬ isNamedHandle handle then none
  let c := c.advance handle.length
  if ¬ c.rest.head?.any isBlank then none
  let (space, c) ← readUriOf true (c.skipWhile isBlank)
  if space = [] ∨ ¬ endsWord c.rest then none
  return (.tagSpace (textOf handle) (.ended space), c)

def readDirective (c : Cursor) : Option (Token × Cursor) := do
  let name := (c.rest.drop 1).takeWhile isWordChar
  let after := c.advance (name.length + 1)
  if ¬ endsWord after.rest then none
  let (t, after) ←
    if textOf name = "YAML" then readVersion after
    else if textOf name = "TAG" then readTagSpace after
    else none
  return (t, ← after.endLine)

namespace Scan

def directive (s : Scan) : Option Scan := do
  let s ← s.startDocument
  let (t, c) ← readDirective s.cursor
  return { s.push t with cursor := c }

def blockScalar (s : Scan) (isLiteral : Bool) : Option Scan := do
  let s ← s.dropCandidate
  let (text, c) ← readBlock isLiteral s.indent (s.cursor.advance 1)
  let style : Style := if isLiteral then .literal else .folded
  return { s.push (.scalar style (textOf text)) with cursor := c, allowsKey := true }

def quotedScalar (s : Scan) (quote : Char) : Option Scan :=
  s.node fun c =>
    (readQuoted quote (c.rest.length + 1) [] (c.advance 1)).map fun r =>
      (.scalar .quoted (textOf r.1), r.2)

def plainScalar (s : Scan) : Option Scan := do
  let s ← s.saveCandidate
  let ((text, isBroken), c) ←
    readPlain s.inFlow s.margin (s.cursor.rest.length + 1) [] {} s.cursor
  return { s.push (.scalar .plain (textOf text)) with cursor := c, allowsKey := isBroken }

def isIndicator (c : Char) : Bool :=
  ['-', '?', ':', ',', '[', ']', '{', '}', '#', '&', '*', '!', '|', '>', '\'', '"', '%', '@',
   '\x60'].contains c

def startsPlain (inFlow : Bool) (c : Char) (rest : List Char) : Bool :=
  !(isBlank c || isBreak c || isIndicator c)
    || (c == '-' && !rest.head?.any isBlank)
    || (!inFlow && (c == '?' || c == ':') && !endsWord rest)

/-- Reads the token that starts with `c`. -/
def next (s : Scan) (c : Char) (rest : List Char) : Option Scan :=
  let isWord := endsWord rest
  if s.cursor.column = 0 ∧ c = '%' then s.directive
  else if s.cursor.isAtMark '-' then s.startDocument.map (·.take 3 .documentStart)
  else if s.cursor.isAtMark '.' then s.startDocument.map (·.take 3 .documentEnd)
  else if c = '[' then s.openFlow .flowSequence
  else if c = '{' then s.openFlow .flowMapping
  else if c = ']' then s.closeFlow .flowSequenceEnd
  else if c = '}' then s.closeFlow .flowMappingEnd
  else if c = ',' then s.flowEntry
  else if c = '-' ∧ isWord then s.blockEntry
  else if c = '?' ∧ (s.inFlow ∨ isWord) then s.key
  else if c = ':' ∧ (s.inFlow ∨ isWord) then s.value
  else if c = '*' then s.node (readAnchor .alias)
  else if c = '&' then s.node (readAnchor .anchor)
  else if c = '!' then s.node (readTag s.inFlow)
  else if c = '|' ∧ ¬ s.inFlow then s.blockScalar true
  else if c = '>' ∧ ¬ s.inFlow then s.blockScalar false
  else if c = '\'' ∨ c = '"' then s.quotedScalar c
  else if startsPlain s.inFlow c rest then s.plainScalar
  else none

def finish (s : Scan) : Option (List Token) :=
  ((s.closeBlocks 0).dropCandidate).map (·.tokens.reverse)

/-- Every token takes at least one character, so the fuel lasts for all of them. -/
def run : Nat → Scan → Option (List Token)
  | 0, _ => none
  | fuel + 1, s => do
    let s ← (skipToToken (s.cursor.rest.length + 1) s).dropStale
    let s := s.closeBlocks (s.cursor.column + 1)
    match s.cursor.rest with
    | [] => s.finish
    | c :: rest => run fuel (← s.next c rest)

end Scan

def tokens (cs : List Char) : Option (List Token) :=
  if cs.all isPrintable then Scan.run (cs.length + 1) { cursor := { rest := cs } } else none

end MailMarkup.Yaml
