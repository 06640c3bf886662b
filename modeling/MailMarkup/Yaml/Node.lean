import MailMarkup.Yaml.Token

/-!
# Nodes

The graph of nodes that tokens spell. A node is a scalar, a sequence or a mapping, or an alias of an
anchored node, perhaps of one around it. Where a node is missing an empty plain scalar stands in its
place. A text holds at most one document.

Anchors have numbers: the number of a new anchor is that of the different names met before it. So
the anchor after a repeated name can get the number of that name's anchor, and of two anchors with
one number the later counts.
-/
namespace MailMarkup.Yaml

inductive Node where
  | scalar (style : Style) (tag : Option Tag) (text : String)
  | sequence (items : List Node)
  | mapping (fields : List (Node × Node))
  | alias (number : Nat)
  deriving Inhabited

/-- What stands for a node that is not there. -/
def missing : Node := .scalar .plain none ""

/-- The tokens that are left, the spaces of tag handles, the numbers of anchor names, the numbers
of all anchors met, the latest first, and the anchored nodes by their places among these. -/
structure Feed where
  tokens : List Token
  spaces : List (String × Tag) := []
  names : List (String × Nat) := []
  numbers : List Nat := []
  anchored : List (Nat × Node) := []

abbrev Build := StateT Feed Option

def peek : Build (Option Token) := do return (← get).tokens.head?

def skip : Build Unit := modify fun f => { f with tokens := f.tokens.tail }

def peekAny (ts : List Token) : Build Bool := do return (← peek).any (ts.contains ·)

/-- Takes the token if it comes next. -/
def accept (t : Token) : Build Bool := do
  if ← peekAny [t] then
    skip
    return true
  else return false

def expect (t : Token) : Build Unit := do
  if !(← accept t) then failure

def numberOf (name : String) : Build Nat := do
  match (← get).names.lookup name with
  | some number => return number
  | none => failure

/-- Gives an anchor its number and its place. -/
def announce (name : String) : Build Nat := do
  let f ← get
  let number := f.names.length
  set { f with
    names := (name, number) :: f.names.filter (·.1 != name)
    numbers := number :: f.numbers }
  return f.numbers.length

def keep (place : Option Nat) (n : Node) : Build Node := do
  match place with
  | some place => modify fun f => { f with anchored := (place, n) :: f.anchored }
  | none => pure ()
  return n

def defaultSpaces : List (String × Tag) :=
  [("!", .mark), ("!!", .ofText "tag:yaml.org,2002:")]

def tagOf (handle : String) (suffix : Tag) : Build Tag := do
  if handle = "" then return suffix
  match ((← get).spaces ++ defaultSpaces).lookup handle with
  | some space => return space ++ suffix
  | none => failure

structure Properties where
  anchor : Option String := none
  tag : Option Tag := none

def readAnchorName : Build (Option String) := do
  match ← peek with
  | some (.anchor name) =>
    skip
    return some name
  | _ => return none

def readTagToken : Build (Option (String × Tag)) := do
  match ← peek with
  | some (.tag handle suffix) =>
    skip
    return some (handle, suffix)
  | _ => return none

/-- An anchor and a tag in either order. -/
def readProperties : Build Properties := do
  let first ← readAnchorName
  let tag ← match ← readTagToken with
    | some (handle, suffix) => pure (some (← tagOf handle suffix))
    | none => pure none
  let anchor ← match first with
    | some name => pure (some name)
    | none => readAnchorName
  return ⟨anchor, tag⟩

def Properties.place (p : Properties) : Build (Option Nat) := do
  match p.anchor with
  | some name => return some (← announce name)
  | none => return none

/-- The node of properties that nothing follows. -/
def Properties.alone (p : Properties) (place : Option Nat) : Build Node := do
  if p.anchor.isNone && p.tag.isNone then failure
  keep place (.scalar .plain p.tag "")

mutual

/-- A node. Inside a block mapping a sequence need not be indented. -/
def node : Nat → (inBlock isValue : Bool) → Build Node
  | 0, _, _ => failure
  | fuel + 1, inBlock, isValue => do
    match ← peek with
    | some (.alias name) =>
      skip
      return .alias (← numberOf name)
    | _ =>
      let p ← readProperties
      let place ← p.place
      match ← peek with
      | some (.scalar style s) =>
        skip
        keep place (.scalar style p.tag s)
      | some .flowSequence =>
        skip
        keep place (.sequence (← flowItems fuel true))
      | some .flowMapping =>
        skip
        keep place (.mapping (← flowFields fuel true))
      | some .blockEntry =>
        if isValue then keep place (.sequence (← looseItems fuel)) else p.alone place
      | some .blockSequence =>
        if inBlock then
          skip
          keep place (.sequence (← blockItems fuel))
        else p.alone place
      | some .blockMapping =>
        if inBlock then
          skip
          keep place (.mapping (← blockFields fuel))
        else p.alone place
      | _ => p.alone place

/-- A node, or none before one of the tokens. -/
def nodeBefore (fuel : Nat) (ends : List Token) (inBlock isValue : Bool) : Build Node :=
  match fuel with
  | 0 => failure
  | fuel + 1 => do
    if (← peek).isNone || (← peekAny ends) then return missing
    node fuel inBlock isValue

def blockItems : Nat → Build (List Node)
  | 0 => failure
  | fuel + 1 => do
    if ← accept .blockEntry then
      let first ← nodeBefore fuel [.blockEntry, .blockEnd] true false
      return first :: (← blockItems fuel)
    else
      expect .blockEnd
      return []

/-- The items of a sequence that is not indented, which ends before the first other token. -/
def looseItems : Nat → Build (List Node)
  | 0 => failure
  | fuel + 1 => do
    if ← accept .blockEntry then
      let first ← nodeBefore fuel [.blockEntry, .key, .value, .blockEnd] true false
      return first :: (← looseItems fuel)
    else return []

def blockFields : Nat → Build (List (Node × Node))
  | 0 => failure
  | fuel + 1 => do
    let ends : List Token := [.key, .value, .blockEnd]
    if ← accept .blockEnd then return []
    expect .key
    let key ← nodeBefore fuel ends true true
    let value ← if ← accept .value then nodeBefore fuel ends true true else pure missing
    return (key, value) :: (← blockFields fuel)

/-- The items of a flow sequence; a pair among them is a mapping of its own. -/
def flowItems : Nat → (isFirst : Bool) → Build (List Node)
  | 0, _ => failure
  | fuel + 1, isFirst => do
    if ← accept .flowSequenceEnd then return []
    if !isFirst then
      expect .flowEntry
    if ← accept .flowSequenceEnd then return []
    let item ←
      if ← accept .key then
        pure (.mapping [← flowPair fuel])
      else node fuel false false
    return item :: (← flowItems fuel false)

/-- A pair in a flow sequence. Without a key the token in its place is passed over. -/
def flowPair : Nat → Build (Node × Node)
  | 0 => failure
  | fuel + 1 => do
    let key ←
      if ← peekAny [.value, .flowEntry, .flowSequenceEnd] then
        skip
        pure missing
      else node fuel false false
    let value ←
      if ← accept .value then nodeBefore fuel [.flowEntry, .flowSequenceEnd] false false
      else pure missing
    return (key, value)

def flowFields : Nat → (isFirst : Bool) → Build (List (Node × Node))
  | 0, _ => failure
  | fuel + 1, isFirst => do
    if ← accept .flowMappingEnd then return []
    if !isFirst then
      expect .flowEntry
    if ← accept .flowMappingEnd then return []
    let field ←
      if ← accept .key then
        let key ← nodeBefore fuel [.value, .flowEntry, .flowMappingEnd] false false
        let value ←
          if ← accept .value then nodeBefore fuel [.flowEntry, .flowMappingEnd] false false
          else pure missing
        pure (key, value)
      else
        let key ← node fuel false false
        pure (key, missing)
    return field :: (← flowFields fuel false)

end

/-- The directives of a document: at most one version, and each handle once. -/
def readDirectives (hasVersion : Bool) (spaces : List (String × Tag)) :
    List Token → Option (List (String × Tag) × List Token)
  | .version major minor :: rest =>
    if hasVersion ∨ major ≠ 1 ∨ (minor ≠ 1 ∧ minor ≠ 2) then none
    else readDirectives true spaces rest
  | .tagSpace handle space :: rest =>
    if (spaces.lookup handle).isSome then none
    else readDirectives hasVersion ((handle, space) :: spaces) rest
  | rest => some (spaces, rest)

def startsDocument : Token → Bool
  | .version .. | .tagSpace .. | .documentStart => true
  | _ => false

/-- The anchored nodes by their numbers, the latest first. -/
def Feed.byNumber (f : Feed) : List (Nat × Node) :=
  f.numbers.zipIdx.filterMap fun (number, later) =>
    (f.anchored.lookup (f.numbers.length - 1 - later)).map (number, ·)

/-- The content of a document, which may be missing after an explicit start. -/
def readContent (spaces : List (String × Tag)) (isExplicit : Bool) (ts : List Token) :
    Option (Node × Feed) :=
  let isMissing := match ts with
    | [] => true
    | t :: _ => startsDocument t || t == .documentEnd
  let f : Feed := { tokens := ts, spaces := spaces }
  if isExplicit && isMissing then some (missing, f)
  else (node (4 * ts.length + 4) true false).run f

def readDocument (ts : List Token) : Option (Node × Feed) :=
  match ts with
  | [] => some (missing, { tokens := [] })
  | t :: _ =>
    if startsDocument t then
      match readDirectives false [] ts with
      | some (spaces, .documentStart :: rest) => readContent spaces true rest
      | _ => none
    else readContent [] false ts

def isDocumentEnd (t : Token) : Bool := t == .documentEnd

/-- A root with the anchored nodes by their numbers. -/
structure Graph where
  root : Node
  anchored : List (Nat × Node)

/-- The graph of a text with at most one document. -/
def readGraph (s : String) : Option Graph := do
  let (root, f) ← readDocument (← tokens s.toList)
  if f.tokens.dropWhile isDocumentEnd = [] then some ⟨root, f.byNumber⟩ else none

end MailMarkup.Yaml
