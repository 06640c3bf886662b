/-!
# Tags

A tag is a row of bytes. It is written with percent signs where need be, so that it need not be a
text; it ends before its first zero.
-/
namespace MailMarkup.Yaml

structure Tag where
  bytes : List UInt8
  deriving DecidableEq

namespace Tag

def ended (bytes : List UInt8) : Tag := ⟨bytes.takeWhile (· != 0)⟩

def ofText (s : String) : Tag := ended s.toUTF8.toList

def append (t u : Tag) : Tag := ⟨t.bytes ++ u.bytes⟩

instance : Append Tag := ⟨append⟩

/-- The tag of a single exclamation mark. -/
def mark : Tag := ofText "!"

def null : Tag := ofText "tag:yaml.org,2002:null"

def float : Tag := ofText "tag:yaml.org,2002:float"

/-- The name that follows the exclamation mark of a tag, if it is a text. -/
def name? (t : Tag) : Option String :=
  match t.bytes with
  | 0x21 :: name => String.fromUTF8? ⟨name.toArray⟩
  | _ => none

end Tag
end MailMarkup.Yaml
