/-! Places in a document and the words of one. A place is what is still to be read, with its
line and column. Besides the newline there are three characters that end a line. -/

namespace MixedInteger.Markup

/-- Why a document cannot be read. -/
inductive MarkupError where
  /-- A character that no document holds. -/
  | character
  /-- A place where no word can stand. -/
  | word
  /-- Words in an order that makes no document. -/
  | order
  /-- A name that is unknown or taken, or a second document. -/
  | reference
  /-- A value that its tag does not fit. -/
  | value
  /-- A number or a date that is none. -/
  | number
  /-- A number without any digits. -/
  | empty
  /-- A code that is too large for a character. -/
  | code
  /-- A truth value that is none. -/
  | truth
deriving DecidableEq, Repr

structure Cursor where
  rest : List Char
  index : Nat := 0
  line : Nat := 0
  column : Nat := 0

def nextLine : Char := Char.ofNat 0x85
def lineSeparator : Char := Char.ofNat 0x2028
def paragraphSeparator : Char := Char.ofNat 0x2029
def byteOrderMark : Char := Char.ofNat 0xFEFF

def isBreak (c : Char) : Bool :=
  c = '\n' || c = nextLine || c = lineSeparator || c = paragraphSeparator

def isSpace (c : Char) : Bool := c = ' ' || c = '\t'

/-- The end of the document counts as any class of blanks. -/
def endsLine (c : Option Char) : Bool := c.all isBreak
def endsWord (c : Option Char) : Bool := c.all fun c => isBreak c || isSpace c
def endsField (c : Option Char) : Bool := c.all fun c => isBreak c || c = ' '

namespace Cursor

def peek (c : Cursor) : Option Char := c.rest.head?
def at? (c : Cursor) (i : Nat) : Option Char := c.rest[i]?

/-- Past one character. -/
def advance (c : Cursor) : Cursor :=
  match c.rest with
  | [] => c
  | d :: rest =>
    if isBreak d then ⟨rest, c.index + 1, c.line + 1, 0⟩
    else ⟨rest, c.index + 1, c.line, if d = byteOrderMark then c.column else c.column + 1⟩

def forward (c : Cursor) : Nat → Cursor
  | 0 => c
  | n + 1 => c.advance.forward n

/-- The longest run of a class and the place after it. -/
def run (p : Char → Bool) (c : Cursor) : List Char × Cursor :=
  let cs := c.rest.takeWhile p
  (cs, c.forward cs.length)

def skip (p : Char → Bool) (c : Cursor) : Cursor := (c.run p).2

def skipBlanks (c : Cursor) : Cursor := c.skip (· = ' ')

/-- Up to the end of the line. -/
def skipLine (c : Cursor) : Cursor := c.skip fun d => !isBreak d

def skipComment (c : Cursor) : Cursor := if c.peek = some '#' then c.skipLine else c

/-- A line end and the place after it. A newline stands for most of them. -/
def lineBreak (c : Cursor) : List Char × Cursor :=
  match c.peek with
  | some d =>
    if d = '\n' || d = nextLine then (['\n'], c.advance)
    else if isBreak d then ([d], c.advance)
    else ([], c)
  | none => ([], c)

/-- Does a mark of three characters stand here as a word of its own? -/
def hasMark (mark : String) (c : Cursor) : Bool :=
  mark.toList.isPrefixOf c.rest && endsWord (c.at? 3)

/-- Does the beginning or the end of a document stand here? -/
def atDocumentMark (c : Cursor) : Bool := c.hasMark "---" || c.hasMark "..."

end Cursor

/-! ### Words -/

/-- A tag as it is written: a handle, where there is one, and a suffix. -/
structure Tag where
  handle : Option String
  suffix : String
deriving DecidableEq, Repr

inductive Token where
  | streamEnd
  | version (major minor : Nat)
  | tagHandle (handle replacement : String)
  | otherDirective
  | documentStart
  | documentEnd
  | blockSequenceStart
  | blockMappingStart
  | blockEnd
  | flowSequenceStart
  | flowSequenceEnd
  | flowMappingStart
  | flowMappingEnd
  | blockEntry
  | flowEntry
  | key
  | value
  | alias (name : String)
  | anchor (name : String)
  | tag (t : Tag)
  | scalar (text : String) (plain : Bool)
deriving DecidableEq, Repr

/-! ### Names and tags -/

def isNameChar (c : Char) : Bool := c.isAlphanum || c = '-' || c = '_'

/-- May a name end before this character? -/
def endsName (c : Option Char) : Bool :=
  endsWord c || c.any fun c => "?:,]%@".toList.contains c || c.toNat = 96 || c.toNat = 125

/-- A name after the mark `&` or `*`. -/
def scanName (c : Cursor) : Except MarkupError (String × Cursor) :=
  let (name, after) := c.advance.run isNameChar
  if name.isEmpty || !endsName after.peek then .error .word
  else .ok (String.ofList name, after)

def isTagChar (c : Char) : Bool := c.isAlphanum || "-;/?:@&=+$,_.!~*'()[]%".toList.contains c

def isHex (c : Char) : Bool :=
  c.isDigit || ('a' ≤ c && c ≤ 'f') || ('A' ≤ c && c ≤ 'F')

/-- Is every percent sign followed by two hexadecimal digits? -/
def escapesOk : List Char → Bool
  | [] => true
  | '%' :: cs => (cs.take 2).length = 2 && (cs.take 2).all isHex && escapesOk cs
  | _ :: cs => escapesOk cs

def scanSuffix (c : Cursor) : Except MarkupError (String × Cursor) :=
  let (cs, after) := c.run isTagChar
  if cs.isEmpty || !escapesOk cs then .error .word else .ok (String.ofList cs, after)

/-- A handle: an exclamation mark, or a name between two of them. -/
def scanHandle (c : Cursor) : Except MarkupError (String × Cursor) :=
  if c.peek ≠ some '!' then .error .word
  else if c.at? 1 = some ' ' then .ok ("!", c.advance)
  else
    let (name, after) := c.advance.run isNameChar
    if after.peek = some '!' then .ok ("!" ++ String.ofList name ++ "!", after.advance)
    else .error .word

/-- Is there another exclamation mark before the next blank? -/
def hasHandle (cs : List Char) : Bool :=
  (cs.takeWhile fun c => !(isBreak c || c = ' ')).contains '!'

def tagBody (c : Cursor) : Except MarkupError (Tag × Cursor) :=
  if c.at? 1 = some '<' then do
    let (suffix, after) ← scanSuffix (c.forward 2)
    if after.peek = some '>' then return (⟨none, suffix⟩, after.advance) else throw .word
  else if endsWord (c.at? 1) then .ok (⟨none, "!"⟩, c.advance)
  else do
    let (handle, after) ← if hasHandle (c.rest.drop 1) then scanHandle c else .ok ("!", c.advance)
    let (suffix, after) ← scanSuffix after
    return (⟨some handle, suffix⟩, after)

def scanTag (c : Cursor) : Except MarkupError (Tag × Cursor) := do
  let (t, after) ← tagBody c
  if endsField after.peek then return (t, after) else throw .word

/-! ### Directives -/

def scanNumber (c : Cursor) : Except MarkupError (Nat × Cursor) :=
  let (ds, after) := c.run Char.isDigit
  if ds.isEmpty then .error .word
  else .ok (ds.foldl (fun n d => 10 * n + (d.toNat - 48)) 0, after)

def versionBody (c : Cursor) : Except MarkupError (Token × Cursor) := do
  let (major, c) ← scanNumber c.skipBlanks
  if c.peek ≠ some '.' then throw .word
  let (minor, c) ← scanNumber c.advance
  if endsField c.peek then return (.version major minor, c) else throw .word

def tagHandleBody (c : Cursor) : Except MarkupError (Token × Cursor) := do
  let (handle, c) ← scanHandle c.skipBlanks
  if c.peek ≠ some ' ' then throw .word
  let (replacement, c) ← scanSuffix c.skipBlanks
  if endsField c.peek then return (.tagHandle handle replacement, c) else throw .word

/-- Past blanks and a comment at the end of a line. -/
def finishLine (c : Cursor) : Except MarkupError Cursor :=
  let c := c.skipBlanks.skipComment
  if endsLine c.peek then .ok c.lineBreak.2 else .error .word

def scanDirective (c : Cursor) : Except MarkupError (Token × Cursor) := do
  let (name, after) := c.advance.run isNameChar
  if name.isEmpty || !endsField after.peek then throw .word
  let (t, after) ← match String.ofList name with
    | "YAML" => versionBody after
    | "TAG" => tagHandleBody after
    | _ => .ok (.otherDirective, after.skipLine)
  return (t, ← finishLine after)

end MixedInteger.Markup
