import MixedInteger.Markup.Scalar

/-! The tokens of a document in order. A key of one line is known as a key only when
its colon comes, so a place where one may have begun is kept, and the key's token is
put there afterwards; until then no token from that place on is handed out. -/

namespace MixedInteger.Markup

/-- A place where a key of one line may have begun. -/
structure PossibleKey where
  /-- The number of its first token. -/
  number : Nat
  /-- Nothing but a key can stand there. -/
  required : Bool
  index : Nat
  line : Nat
  column : Nat

structure Scan where
  cursor : Cursor
  tokens : Array Token := #[]
  /-- Depth of brackets. -/
  flow : Nat := 0
  /-- Columns of the open blocks, the innermost one first; outside it is minus one. -/
  indent : Int := -1
  outer : List Int := []
  keyAllowed : Bool := true
  /-- At most one place at each depth. -/
  keys : List (Nat × PossibleKey) := []
  finished : Bool := false

abbrev Scanning := EStateM MarkupError Scan

namespace Scan

/-- How many tokens can be handed out. -/
def ready (s : Scan) : Nat := s.keys.foldl (fun n e => min n e.2.number) s.tokens.size

/-- A key ends on its line and is not too long. -/
def isStale (s : Scan) (k : PossibleKey) : Bool :=
  k.line ≠ s.cursor.line || s.cursor.index - k.index > 1024

/-- Closes the blocks that stand further right than a column. -/
def closeBlocks (column : Int) (s : Scan) : List Int → Scan
  | [] => s
  | indent :: outer =>
    if s.indent > column then
      closeBlocks column
        { s with tokens := s.tokens.push .blockEnd, indent := indent, outer := outer } outer
    else s

/-- Within brackets columns have no meaning. -/
def unwind (column : Int) (s : Scan) : Scan :=
  if s.flow = 0 then s.closeBlocks column s.outer else s

end Scan

/-! ### Possible keys -/

def dropStale : Scanning Unit := do
  let s ← get
  if s.keys.any fun e => s.isStale e.2 && e.2.required then throw .word
  set { s with keys := s.keys.filter fun e => !s.isStale e.2 }

/-- No key begins at the kept place of this depth. -/
def forgetKey : Scanning Unit := do
  let s ← get
  if (s.keys.lookup s.flow).any (·.required) then throw .word
  set { s with keys := s.keys.filter fun e => e.1 ≠ s.flow }

/-- A key may begin here. -/
def keepKey : Scanning Unit := do
  if (← get).keyAllowed then
    forgetKey
    modify fun s =>
      let here : PossibleKey :=
        { number := s.tokens.size
          required := s.flow = 0 && s.indent = s.cursor.column
          index := s.cursor.index, line := s.cursor.line, column := s.cursor.column }
      { s with keys := (s.flow, here) :: s.keys }

def allowKey (b : Bool) : Scanning Unit := modify fun s => { s with keyAllowed := b }

/-! ### Single tokens -/

def push (t : Token) : Scanning Unit := modify fun s => { s with tokens := s.tokens.push t }

/-- A token of some characters. -/
def pushOver (t : Token) (width : Nat) : Scanning Unit :=
  modify fun s => { s with tokens := s.tokens.push t, cursor := s.cursor.forward width }

/-- A token that is read from the cursor on. -/
def pushRead (read : Cursor → Except MarkupError (Token × Cursor)) : Scanning Unit := do
  match read (← get).cursor with
  | .error e => throw e
  | .ok (t, c) => modify fun s => { s with tokens := s.tokens.push t, cursor := c }

/-- Begins a block at a column, unless one is open there. -/
def openBlock (column : Nat) : Scanning Bool := do
  let s ← get
  if s.indent < column then
    set { s with indent := (column : Int), outer := s.indent :: s.outer }
    return true
  return false

/-- A block begins where a key may stand. -/
def openHere (t : Token) : Scanning Unit := do
  let s ← get
  if s.flow = 0 then
    if !s.keyAllowed then throw .word
    if ← openBlock s.cursor.column then push t

/-- Outside all blocks. -/
def leaveBlocks : Scanning Unit := do
  modify (Scan.unwind (-1))
  forgetKey
  allowKey false

def putEnd : Scanning Unit := do
  leaveBlocks
  modify fun s =>
    { s with tokens := s.tokens.push .streamEnd, keys := [], finished := true }

def putDirective : Scanning Unit := do
  leaveBlocks
  pushRead scanDirective

def putDocumentMark (t : Token) : Scanning Unit := do
  leaveBlocks
  pushOver t 3

def putFlowStart (t : Token) : Scanning Unit := do
  keepKey
  modify fun s => { s with flow := s.flow + 1 }
  allowKey true
  pushOver t 1

def putFlowEnd (t : Token) : Scanning Unit := do
  forgetKey
  modify fun s => { s with flow := s.flow - 1 }
  allowKey false
  pushOver t 1

def putFlowEntry : Scanning Unit := do
  allowKey true
  forgetKey
  pushOver .flowEntry 1

def putBlockEntry : Scanning Unit := do
  openHere .blockSequenceStart
  allowKey true
  forgetKey
  pushOver .blockEntry 1

/-- A key with a mark of its own. -/
def putKey : Scanning Unit := do
  openHere .blockMappingStart
  allowKey ((← get).flow = 0)
  forgetKey
  pushOver .key 1

/-- A token at an earlier place. -/
def insertToken (number : Nat) (t : Token) : Scanning Unit :=
  modify fun s => { s with tokens := s.tokens.insertIdxIfInBounds number t }

def putValue : Scanning Unit := do
  let s ← get
  match s.keys.lookup s.flow with
  | some k =>
    set { s with keys := s.keys.filter fun e => e.1 ≠ s.flow }
    insertToken k.number .key
    if s.flow = 0 then
      if ← openBlock k.column then insertToken k.number .blockMappingStart
    allowKey false
  | none =>
    openHere .blockMappingStart
    allowKey (s.flow = 0)
  pushOver .value 1

/-- A word on one line, which may be a key. -/
def putWord (read : Cursor → Except MarkupError (Token × Cursor)) : Scanning Unit := do
  keepKey
  allowKey false
  pushRead read

def putBlock : Scanning Unit := do
  let parent := (← get).indent
  allowKey true
  forgetKey
  pushRead fun c => do
    let (text, c) ← scanBlock parent c
    return (.scalar text false, c)

/-- A plain text that ends at the beginning of a line may be followed by a key. -/
def putPlain : Scanning Unit := do
  keepKey
  let s ← get
  let (text, fresh, c) := scanPlain (s.flow > 0) (s.indent + 1) s.cursor
  set { s with tokens := s.tokens.push (.scalar text true), cursor := c, keyAllowed := fresh }

/-! ### All tokens -/

/-- The nearest place with something else than blanks and comments, and whether lines
ended before it. -/
def toNextToken (fuel : Nat) (broken : Bool) (c : Cursor) : Bool × Cursor :=
  match fuel with
  | 0 => (broken, c)
  | fuel + 1 =>
    let c := c.skipBlanks.skipComment
    match c.lineBreak with
    | ([], _) => (broken, c)
    | (_, after) => toNextToken fuel true after

def skipToToken : Scanning Unit :=
  modify fun s =>
    let c := if s.cursor.index = 0 && s.cursor.peek = some byteOrderMark then s.cursor.advance
      else s.cursor
    let (broken, c) := toNextToken (c.rest.length + 1) false c
    { s with cursor := c, keyAllowed := s.keyAllowed || (broken && s.flow = 0) }

/-- Characters that begin no plain text. -/
def plainMarks : List Char :=
  "-?:,[]#&*!|>'\"%@".toList ++ [0x7B, 0x7D, 0x60].map Char.ofNat

def beginsPlain (flow : Bool) (c : Cursor) : Bool :=
  c.peek.any fun d =>
    !(isSpace d || isBreak d || plainMarks.contains d) ||
      (!endsWord (c.at? 1) && (d = '-' || (!flow && (d = '?' || d = ':'))))

def readAlias (c : Cursor) : Except MarkupError (Token × Cursor) :=
  (scanName c).map fun r => (.alias r.1, r.2)

def readAnchor (c : Cursor) : Except MarkupError (Token × Cursor) :=
  (scanName c).map fun r => (.anchor r.1, r.2)

def readTag (c : Cursor) : Except MarkupError (Token × Cursor) :=
  (scanTag c).map fun r => (.tag r.1, r.2)

def readQuoted (c : Cursor) : Except MarkupError (Token × Cursor) :=
  (scanQuoted c).map fun r => (.scalar r.1 false, r.2)

/-- The token that begins with a character. -/
def putToken (d : Char) (s : Scan) : Scanning Unit :=
  let c := s.cursor
  let flow := s.flow > 0
  let aloneOrFlow := flow || endsWord (c.at? 1)
  if c.column = 0 && d = '%' then putDirective
  else if c.column = 0 && c.hasMark "---" then putDocumentMark .documentStart
  else if c.column = 0 && c.hasMark "..." then putDocumentMark .documentEnd
  else if d = '[' then putFlowStart .flowSequenceStart
  else if d.toNat = 0x7B then putFlowStart .flowMappingStart
  else if d = ']' then putFlowEnd .flowSequenceEnd
  else if d.toNat = 0x7D then putFlowEnd .flowMappingEnd
  else if d = ',' then putFlowEntry
  else if d = '-' && endsWord (c.at? 1) then putBlockEntry
  else if d = '?' && aloneOrFlow then putKey
  else if d = ':' && aloneOrFlow then putValue
  else if d = '*' then putWord readAlias
  else if d = '&' then putWord readAnchor
  else if d = '!' then putWord readTag
  else if (d = '|' || d = '>') && !flow then putBlock
  else if d = '\'' || d = '"' then putWord readQuoted
  else if beginsPlain flow c then putPlain
  else throw .word

/-- At least one more token. -/
def scanMore : Scanning Unit := do
  skipToToken
  dropStale
  modify fun s => s.unwind s.cursor.column
  let s ← get
  match s.cursor.peek with
  | none => putEnd
  | some d =>
    putToken d s
    dropStale

/-- Tokens, and what comes in place of the next one if the document is at fault. -/
structure TokenList where
  tokens : List Token
  error? : Option MarkupError := none

def scanFrom (fuel : Nat) (s : Scan) : TokenList :=
  match fuel with
  | 0 => ⟨s.tokens.toList, none⟩
  | fuel + 1 =>
    match scanMore s with
    | .error e _ => ⟨s.tokens.toList.take s.ready, some e⟩
    | .ok () s => if s.finished then ⟨s.tokens.toList, none⟩ else scanFrom fuel s

/-- Characters that a document may hold. -/
def isDocumentChar (c : Char) : Bool :=
  let n := c.toNat
  n = 0x09 || n = 0x0A || n = 0x0D || (0x20 ≤ n && n ≤ 0x7E) || n = 0x85 ||
    (0xA0 ≤ n && n ≤ 0xFFFD) || 0x10000 ≤ n

/-- A carriage return, alone or with a newline, is a newline. -/
def plainNewlines : List Char → List Char
  | [] => []
  | '\r' :: '\n' :: cs => '\n' :: plainNewlines cs
  | '\r' :: cs => '\n' :: plainNewlines cs
  | c :: cs => c :: plainNewlines cs

/-- The tokens of a document. Every one but the last takes a character or more. -/
def TokenList.ofText (text : String) : TokenList :=
  let cs := plainNewlines text.toList
  if cs.all isDocumentChar then scanFrom (cs.length + 1) { cursor := { rest := cs } }
  else ⟨[], some .character⟩

end MixedInteger.Markup
