import MailMarkup.Xml.Reference

/-!
# Tokens

Markup is cut into tags, texts, literal sections, and asides, which are comments and instructions.
A token keeps the text that it was read from, so that the texts of all tokens put together are the
markup itself.
-/
namespace MailMarkup.Xml

/-- A name with the qualifier before its colon, which is empty if there is no colon. -/
structure Name where
  qualifier : List Char
  base : List Char
  deriving DecidableEq

structure Attribute where
  name : Name
  value : List Char
  deriving DecidableEq

inductive Lexeme where
  | opening (name : Name) (attributes : List Attribute)
  | empty (name : Name) (attributes : List Attribute)
  | closing (name : Name)
  | text (value : List Char)
  | section (value : List Char)
  | aside
  deriving DecidableEq

structure Token where
  lexeme : Lexeme
  source : List Char
  deriving DecidableEq

def startsName (cs : List Char) : Bool :=
  match cs with
  | c :: _ => isNameStart c
  | [] => false

def nameOf? (run : List Char) : Option Name :=
  match splitAt? [':'] run with
  | none => if startsName run then some ⟨[], run⟩ else none
  | some (qualifier, base) =>
    if (qualifier = [] || startsName qualifier) && startsName base && !base.contains ':' then
      some ⟨qualifier, base⟩
    else none

def readName (cs : List Char) : Except Fault (Name × List Char) :=
  match nameOf? (cs.takeWhile isNamePart) with
  | some name => .ok (name, cs.dropWhile isNamePart)
  | none => .error .badName

def readChar (c : Char) : List Char → Except Fault (Unit × List Char)
  | [] => .error .unexpectedEnd
  | d :: cs => if d = c then .ok ((), cs) else .error (.misplaced d)

/-- The text up to a quote, in which no tag may start. -/
def readQuoted (quote : Char) (cs : List Char) : Except Fault (List Char × List Char) := do
  let isInside (c : Char) : Bool := c != quote && c != '<'
  let raw := cs.takeWhile isInside
  let (_, rest) ← readChar quote (cs.dropWhile isInside)
  if raw.all isAllowed then
    let parts ← chunks raw
    return (valueOf parts, rest)
  else throw .forbiddenCharacter

def readValue : List Char → Except Fault (List Char × List Char)
  | '"' :: cs => readQuoted '"' cs
  | '\'' :: cs => readQuoted '\'' cs
  | c :: _ => .error (.misplaced c)
  | [] => .error .unexpectedEnd

def readAttribute (cs : List Char) : Except Fault (Attribute × List Char) := do
  let (name, rest) ← readName cs
  let (_, rest) ← readChar '=' (dropSpaces rest)
  let (value, rest) ← readValue (dropSpaces rest)
  return (⟨name, value⟩, rest)

/-- The attributes of a tag and whether it closes itself. A space stands before each attribute. -/
def readAttributes (cs : List Char) : Except Fault ((List Attribute × Bool) × List Char) :=
  match dropSpaces cs with
  | [] => .error .unexpectedEnd
  | '>' :: rest => .ok (([], false), rest)
  | '/' :: rest => (readChar '>' rest).map fun p => (([], true), p.2)
  | c :: rest =>
    if cs.head?.any isSpace then
      match readAttribute (c :: rest) with
      | .error fault => .error fault
      | .ok (first, others) =>
        if others.length < cs.length then
          (readAttributes others).map fun p => ((first :: p.1.1, p.1.2), p.2)
        else .error .unexpectedEnd
    else .error (.misplaced c)
termination_by cs.length

def readTag (cs : List Char) : Except Fault (Lexeme × List Char) := do
  let (name, rest) ← readName cs
  let ((attributes, isEmpty), rest) ← readAttributes rest
  return (if isEmpty then .empty name attributes else .opening name attributes, rest)

def readClosing (cs : List Char) : Except Fault (Lexeme × List Char) := do
  let (name, rest) ← readName cs
  let (_, rest) ← readChar '>' (dropSpaces rest)
  return (.closing name, rest)

def readUpTo (mark cs : List Char) : Except Fault (List Char × List Char) :=
  match splitAt? mark cs with
  | none => .error .unexpectedEnd
  | some (body, rest) =>
    if body.all isAllowed then .ok (body, rest) else .error .forbiddenCharacter

/-- A comment holds no double hyphen, and no hyphen at its end. -/
def readComment (cs : List Char) : Except Fault (Lexeme × List Char) := do
  let (body, rest) ← readUpTo ['-', '-', '>'] cs
  if (splitAt? ['-', '-'] body).isSome || body.getLast? == some '-' then throw .badComment
  return (.aside, rest)

def readInstruction (cs : List Char) : Except Fault (Lexeme × List Char) := do
  if ['x', 'm', 'l', ' '].isPrefixOf cs then throw .badDeclaration
  if !startsName cs then throw .badName
  let (_, rest) ← readUpTo ['?', '>'] (dropSpaces (cs.dropWhile isNamePart))
  return (.aside, rest)

def readSection (cs : List Char) : Except Fault (Lexeme × List Char) := do
  let (body, rest) ← readUpTo [']', ']', '>'] cs
  return (.section (textOf (body.map .plain)), rest)

def isNotTagStart (c : Char) : Bool := c != '<'

/-- A text holds no end mark of a literal section. -/
def readText (cs : List Char) : Except Fault (Lexeme × List Char) := do
  let body := cs.takeWhile isNotTagStart
  if !body.all isAllowed then throw .forbiddenCharacter
  if (splitAt? [']', ']', '>'] body).isSome then throw .forbiddenCharacter
  let parts ← chunks body
  return (.text (textOf parts), cs.dropWhile isNotTagStart)

def readLexeme : List Char → Except Fault (Lexeme × List Char)
  | '<' :: '!' :: '-' :: '-' :: cs => readComment cs
  | '<' :: '!' :: '[' :: 'C' :: 'D' :: 'A' :: 'T' :: 'A' :: '[' :: cs => readSection cs
  | '<' :: '!' :: _ => .error .badDeclaration
  | '<' :: '?' :: cs => readInstruction cs
  | '<' :: '/' :: cs => readClosing cs
  | '<' :: cs => readTag cs
  | cs => readText cs

/-- The tokens of a text, each of which takes at least one character. -/
def tokens (cs : List Char) : Except Fault (List Token) :=
  if cs = [] then .ok []
  else
    match readLexeme cs with
    | .error fault => .error fault
    | .ok (lexeme, rest) =>
      if rest.length < cs.length then
        (tokens rest).map (⟨lexeme, cs.take (cs.length - rest.length)⟩ :: ·)
      else .error .unexpectedEnd
termination_by cs.length

end MailMarkup.Xml
