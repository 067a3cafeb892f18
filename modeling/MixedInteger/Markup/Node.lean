import MixedInteger.Markup.Resolution
import MixedInteger.Markup.TokenList

/-! The tree of a document. A node carries its kind, from its tag or from its looks,
and an alias stands for the node that its name was given to. What no tokens give is an
empty text. A document holds one tree at most. -/

namespace MixedInteger.Markup

inductive Node where
  | scalar (kind : NodeKind) (text : String)
  | sequence (kind : NodeKind) (items : List Node)
  | mapping (kind : NodeKind) (entries : List (Node × Node))

def Node.kind : Node → NodeKind
  | scalar k _ | sequence k _ | mapping k _ => k

def Node.empty : Node := .scalar .null ""

/-- What is left to read and what has been named. -/
structure Reading where
  tokens : List Token
  /-- What comes after the last token. -/
  failure : MarkupError
  /-- Nodes by name; a node that is still being read is not there yet. -/
  anchors : List (String × Option Node) := []
  handles : List (String × String) := []

abbrev NodeReader := EStateM MarkupError Reading

namespace NodeReader

def peek : NodeReader Token := do
  match (← get).tokens with
  | t :: _ => return t
  | [] => throw (← get).failure

/-- Past the next token. -/
def next : NodeReader Unit := modify fun s => { s with tokens := s.tokens.drop 1 }

def accept (t : Token) : NodeReader Unit := do
  if (← peek) = t then next else throw .order

/-- The empty node before some tokens, and the given one otherwise. -/
def orEmpty (ends : List Token) (n : NodeReader Node) : NodeReader Node := do
  if ends.contains (← peek) then return .empty else n

/-- The node after a colon; without a colon or a node it is empty. -/
def valueAfter (ends : List Token) (n : NodeReader Node) : NodeReader Node := do
  if (← peek) = .value then
    next
    orEmpty ends n
  else return .empty

/-! ### Properties of a node -/

def fullTag (t : Tag) : NodeReader String := do
  match t.handle with
  | none => return t.suffix
  | some h =>
    match (← get).handles.lookup h with
    | some replacement => return replacement ++ t.suffix
    | none => throw .order

def anchor? : NodeReader (Option String) := do
  match ← peek with
  | .anchor name =>
    next
    return some name
  | _ => return none

def tag? : NodeReader (Option Tag) := do
  match ← peek with
  | .tag t =>
    next
    return some t
  | _ => return none

/-- Name and tag in either order. -/
def properties : NodeReader (Option String × Option String) := do
  let before ← anchor?
  let tag ← tag?
  let name ← if before.isNone && tag.isSome then anchor? else pure before
  return (name, ← tag.mapM fullTag)

def aliased (name : String) : NodeReader Node := do
  match (← get).anchors.lookup name with
  | some (some n) => return n
  | some none => throw .value
  | none => throw .reference

/-- Gives a name to a node; no name is given twice. -/
def named (name : Option String) (n : NodeReader Node) : NodeReader Node := do
  match name with
  | none => n
  | some name =>
    if ((← get).anchors.lookup name).isSome then throw .reference
    modify fun s => { s with anchors := (name, none) :: s.anchors }
    let n ← n
    modify fun s => { s with anchors := (name, some n) :: s.anchors }
    return n

/-- Without a tag of its own, a node has the kind that it looks like. -/
def kindOf (tag : Option String) (looks : NodeKind) : NodeKind :=
  match tag with
  | none => looks
  | some t => if t = "!" then looks else .ofTag t

/-- A text that is tagged by a lone exclamation mark counts as plain. -/
def textNode (tag : Option String) (plain : Bool) (text : String) : Node :=
  let looks := if plain || tag = some "!" then NodeKind.ofPlain text else .text
  .scalar (kindOf tag looks) text

/-! ### Nodes -/

/-- Where a node stands, which tells what it may be. -/
inductive Site where
  /-- Within brackets. -/
  | flow
  /-- An entry of a block sequence, or a whole document. -/
  | item
  /-- A part of a block mapping, where a sequence need not be indented. -/
  | part
deriving DecidableEq

mutual
def node (fuel : Nat) (site : Site) : NodeReader Node := do
  match fuel with
  | 0 => throw .order
  | fuel + 1 =>
    if let .alias name := ← peek then
      next
      return ← aliased name
    let (name, tag) ← properties
    let sequence (items : NodeReader (List Node)) : NodeReader Node :=
      named name ((Node.sequence (kindOf tag .sequence)) <$> items)
    let mapping (entries : NodeReader (List (Node × Node))) : NodeReader Node :=
      named name ((Node.mapping (kindOf tag .mapping)) <$> entries)
    match ← peek, site with
    | .blockEntry, .part => sequence (lineItems fuel)
    | .scalar text plain, _ =>
      next
      named name (pure (textNode tag plain text))
    | .flowSequenceStart, _ =>
      next
      sequence (flowItems fuel true)
    | .flowMappingStart, _ =>
      next
      mapping (flowEntries fuel true)
    | .blockSequenceStart, .item | .blockSequenceStart, .part =>
      next
      sequence (blockItems fuel)
    | .blockMappingStart, .item | .blockMappingStart, .part =>
      next
      mapping (blockEntries fuel)
    | _, _ =>
      if name.isNone && tag.isNone then throw .order
      named name (pure (textNode tag true ""))

def blockItems (fuel : Nat) : NodeReader (List Node) := do
  match fuel with
  | 0 => throw .order
  | fuel + 1 =>
    match ← peek with
    | .blockEntry =>
      next
      let n ← orEmpty [.blockEntry, .blockEnd] (node fuel .item)
      return n :: (← blockItems fuel)
    | _ =>
      accept .blockEnd
      return []

/-- The items of a sequence that is not indented. -/
def lineItems (fuel : Nat) : NodeReader (List Node) := do
  match fuel with
  | 0 => throw .order
  | fuel + 1 =>
    match ← peek with
    | .blockEntry =>
      next
      let n ← orEmpty [.blockEntry, .key, .value, .blockEnd] (node fuel .item)
      return n :: (← lineItems fuel)
    | _ => return []

def blockEntries (fuel : Nat) : NodeReader (List (Node × Node)) := do
  match fuel with
  | 0 => throw .order
  | fuel + 1 =>
    match ← peek with
    | .key =>
      next
      let key ← orEmpty [.key, .value, .blockEnd] (node fuel .part)
      let value ← valueAfter [.key, .value, .blockEnd] (node fuel .part)
      return (key, value) :: (← blockEntries fuel)
    | _ =>
      accept .blockEnd
      return []

def flowItems (fuel : Nat) (first : Bool) : NodeReader (List Node) := do
  match fuel with
  | 0 => throw .order
  | fuel + 1 =>
    if (← peek) ≠ .flowSequenceEnd && !first then accept .flowEntry
    match ← peek with
    | .flowSequenceEnd =>
      next
      return []
    | .key =>
      next
      let key ← orEmpty [.value, .flowEntry, .flowSequenceEnd] (node fuel .flow)
      let value ← valueAfter [.flowEntry, .flowSequenceEnd] (node fuel .flow)
      return .mapping .mapping [(key, value)] :: (← flowItems fuel false)
    | _ =>
      let n ← node fuel .flow
      return n :: (← flowItems fuel false)

def flowEntries (fuel : Nat) (first : Bool) : NodeReader (List (Node × Node)) := do
  match fuel with
  | 0 => throw .order
  | fuel + 1 =>
    if (← peek) ≠ .flowMappingEnd && !first then accept .flowEntry
    match ← peek with
    | .flowMappingEnd =>
      next
      return []
    | .key =>
      next
      let key ← orEmpty [.value, .flowEntry, .flowMappingEnd] (node fuel .flow)
      let value ← valueAfter [.flowEntry, .flowMappingEnd] (node fuel .flow)
      return (key, value) :: (← flowEntries fuel false)
    | _ =>
      let key ← node fuel .flow
      return (key, .empty) :: (← flowEntries fuel false)
end

/-! ### Documents -/

/-- Directives before a document: one version at most, which is the first one, and one
replacement for a handle at most. -/
def directives (fuel : Nat) (versioned : Bool) (found : List (String × String)) :
    NodeReader (List (String × String)) := do
  match fuel with
  | 0 => throw .order
  | fuel + 1 =>
    match ← peek with
    | .version major _ =>
      next
      if versioned || major ≠ 1 then throw .order
      directives fuel true found
    | .tagHandle handle replacement =>
      next
      if (found.lookup handle).isSome then throw .order
      directives fuel versioned ((handle, replacement) :: found)
    | .otherDirective =>
      next
      directives fuel versioned found
    | _ => return found

def defaultHandles : List (String × String) := [("!", "!"), ("!!", kindPrefix)]

/-- Directives and the mark behind them. -/
def explicitStart (fuel : Nat) : NodeReader Unit := do
  let found ← directives fuel false []
  modify fun s => { s with handles := found ++ defaultHandles }
  accept .documentStart

def isDirective : Token → Bool
  | .version .. | .tagHandle .. | .otherDirective => true
  | _ => false

/-- What stands behind the mark of a document; there may be nothing. -/
def content (fuel : Nat) : NodeReader Node := do
  let t ← peek
  if isDirective t || [.documentStart, .documentEnd, .streamEnd].contains t then return .empty
  else node fuel .item

def skipEnds (fuel : Nat) : NodeReader Unit := do
  match fuel with
  | 0 => throw .order
  | fuel + 1 =>
    if (← peek) = .documentEnd then
      next
      skipEnds fuel

/-- The only document, if there is one. -/
def document (fuel : Nat) : NodeReader (Option Node) := do
  let t ← peek
  if t = .streamEnd then return none
  let n ← if isDirective t || t = .documentStart then do
      explicitStart fuel
      content fuel
    else do
      modify fun s => { s with handles := defaultHandles }
      node fuel .item
  skipEnds fuel
  if (← peek) ≠ .streamEnd then
    explicitStart fuel
    throw .reference
  return some n

end NodeReader

/-- The tree of a document. Each token is read once, and between two of them there are
two calls at most. -/
def Node.ofTokens (ts : TokenList) : Except MarkupError (Option Node) :=
  let start : Reading := { tokens := ts.tokens, failure := ts.error?.getD .order }
  match NodeReader.document (2 * ts.tokens.length + 4) start with
  | .ok n _ => .ok n
  | .error e _ => .error e

def Node.ofText (text : String) : Except MarkupError (Option Node) :=
  Node.ofTokens (.ofText text)

end MixedInteger.Markup
