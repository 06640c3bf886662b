/-!
# Markup faults

The ways in which a text can fail to be a well-formed element.
-/
namespace MailMarkup.Xml

inductive Fault where
  | unexpectedEnd
  | misplaced (found : Char)
  | forbiddenCharacter
  | badName
  | badReference
  | badComment
  | badDeclaration
  | badNamespace
  | unboundName
  | repeatedAttribute
  | mismatchedTag (tag : String)
  | unclosedTag (tag : String)
  | contentOutsideRoot
  | noRoot
  deriving DecidableEq

def Fault.message : Fault → String
  | .unexpectedEnd => "unexpected end of text"
  | .misplaced found => "unexpected character '" ++ String.ofList [found] ++ "'"
  | .forbiddenCharacter => "a character that markup may not hold"
  | .badName => "invalid name"
  | .badReference => "invalid or unknown reference"
  | .badComment => "invalid comment"
  | .badDeclaration => "a declaration is not allowed here"
  | .badNamespace => "invalid namespace declaration"
  | .unboundName => "a name with an undeclared namespace"
  | .repeatedAttribute => "an attribute is given twice"
  | .mismatchedTag tag => "unexpected closing tag '" ++ tag ++ "'"
  | .unclosedTag tag => "the element '" ++ tag ++ "' is never closed"
  | .contentOutsideRoot => "content outside the root element"
  | .noRoot => "no root element"

end MailMarkup.Xml
