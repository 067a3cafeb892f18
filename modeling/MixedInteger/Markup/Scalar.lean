import MixedInteger.Markup.Token
import MixedInteger.Text.Ranges

/-! Texts in a document: plain ones, quoted ones and blocks. Lines of a text are
folded, a single line end becoming a blank; a block may keep its lines. `fuel` bounds
the number of lines and escapes, and what is left of the document is enough. -/

namespace MixedInteger.Markup

/-! ### Plain texts -/

/-- What a plain text may not hold within brackets. -/
def isFlowMark (c : Char) : Bool := c = ',' || c = '?' || c = '[' || c = ']' ||
  c.toNat = 123 || c.toNat = 125

/-- A colon ends a plain text before a blank, and within brackets before a mark. -/
def endsBeforeColon (flow : Bool) (next : Option Char) : Bool :=
  endsWord next || (flow && next.any fun c => isFlowMark c && c ≠ '?')

/-- The characters of a plain text on one line, up to the next blank. -/
def plainRun (flow : Bool) : List Char → List Char
  | [] => []
  | c :: cs =>
    if isSpace c || isBreak c || (c = ':' && endsBeforeColon flow cs.head?) ||
        (flow && isFlowMark c) then []
    else c :: plainRun flow cs

/-- Line ends with blanks between them; nothing when a document mark follows. -/
def plainBreaks (fuel : Nat) (acc : List Char) (c : Cursor) : Option (List Char × Cursor) :=
  match fuel with
  | 0 => none
  | fuel + 1 =>
    let c := c.skipBlanks
    match c.lineBreak with
    | ([], _) => some (acc, c)
    | (ends, after) =>
      if after.atDocumentMark then none else plainBreaks fuel (acc ++ ends) after

/-- How a first line end and further ones are folded. -/
def fold (first more : List Char) : List Char :=
  if first ≠ ['\n'] then first ++ more else if more.isEmpty then [' '] else more

/-- What stands between two runs, and whether a line ended there. It is empty when the
text ends. -/
def plainGap (c : Cursor) : List Char × Bool × Cursor :=
  let (blanks, after) := c.run (· = ' ')
  match after.lineBreak with
  | ([], _) => (blanks, false, after)
  | (first, next) =>
    if next.atDocumentMark then ([], true, next)
    else match plainBreaks (next.rest.length + 1) [] next with
      | none => ([], true, next)
      | some (more, next) => (fold first more, true, next)

/-- A plain text with what has been read of it. The flag tells that it ended at the
beginning of a line. -/
def plainFrom (fuel : Nat) (flow : Bool) (indent : Int) (acc gap : List Char) (fresh : Bool)
    (c : Cursor) : String × Bool × Cursor :=
  match fuel with
  | 0 => (String.ofList acc, fresh, c)
  | fuel + 1 =>
    let run := if c.peek = some '#' then [] else plainRun flow c.rest
    if run.isEmpty then (String.ofList acc, fresh, c)
    else
      let acc := acc ++ gap ++ run
      let (gap, broken, next) := plainGap (c.forward run.length)
      if gap.isEmpty || next.peek = some '#' || (!flow && (next.column : Int) < indent) then
        (String.ofList acc, broken, next)
      else plainFrom fuel flow indent acc gap broken next

def scanPlain (flow : Bool) (indent : Int) (c : Cursor) : String × Bool × Cursor :=
  plainFrom (c.rest.length + 1) flow indent [] [] false c

/-! ### Quoted texts -/

/-- What a character after a backslash stands for. -/
def escape? (c : Char) : Option Char :=
  let entry := [('0', 0), ('a', 7), ('b', 8), ('t', 9), ('\t', 9), ('n', 10), ('v', 11), ('f', 12),
    ('r', 13), ('e', 27), (' ', 32), ('"', 34), ('\\', 92), ('/', 47), ('N', 0x85), ('_', 0xA0),
    ('L', 0x2028), ('P', 0x2029)].lookup c
  entry.map Char.ofNat

/-- How many hexadecimal digits follow a character after a backslash. -/
def escapeWidth? (c : Char) : Option Nat := [('x', 2), ('u', 4), ('U', 8)].lookup c

/-- A character by its code. -/
def scanCode (width : Nat) (c : Cursor) : Except MarkupError (List Char × Cursor) :=
  let ds := c.rest.take width
  if ds.length < width || !ds.all isHex then .error .word
  else
    let n := Text.hexNat ds
    if n < 0x110000 then .ok ([Char.ofNat n], c.forward width)
    else if n < 0x80000000 then .error .number
    else .error .code

/-- Line ends within quotes; a document mark may not stand there. -/
def quotedBreaks (fuel : Nat) (acc : List Char) (c : Cursor) :
    Except MarkupError (List Char × Cursor) :=
  match fuel with
  | 0 => .error .word
  | fuel + 1 =>
    if c.atDocumentMark then .error .word
    else
      let c := c.skip isSpace
      match c.lineBreak with
      | ([], _) => .ok (acc, c)
      | (ends, after) => quotedBreaks fuel (acc ++ ends) after

def breaksFrom (c : Cursor) : Except MarkupError (List Char × Cursor) :=
  quotedBreaks (c.rest.length + 1) [] c

/-- What a backslash and the next characters stand for. -/
def scanEscape (c : Cursor) : Except MarkupError (List Char × Cursor) :=
  match c.peek with
  | none => .error .word
  | some d =>
    match escape? d, escapeWidth? d with
    | some e, _ => .ok ([e], c.advance)
    | none, some width => scanCode width c.advance
    | none, none => if isBreak d then breaksFrom c.lineBreak.2 else .error .word

/-- Blanks and line ends within quotes. -/
def quotedGap (c : Cursor) : Except MarkupError (List Char × Cursor) :=
  let (blanks, after) := c.run isSpace
  match after.peek with
  | none => .error .word
  | some d =>
    if isBreak d then do
      let (first, next) := after.lineBreak
      let (more, next) ← breaksFrom next
      return (fold first more, next)
    else .ok (blanks, after)

/-- A quoted text from behind its opening quote on. -/
def quotedFrom (fuel : Nat) (quote : Char) (acc : List Char) (c : Cursor) :
    Except MarkupError (String × Cursor) :=
  match fuel with
  | 0 => .error .word
  | fuel + 1 =>
    match c.peek with
    | none => .error .word
    | some d =>
      if d = quote then
        if quote = '\'' && c.at? 1 = some '\'' then
          quotedFrom fuel quote (acc ++ ['\'']) (c.forward 2)
        else .ok (String.ofList acc, c.advance)
      else
        let part : Except MarkupError (List Char × Cursor) :=
          if d = '\\' && quote = '"' then scanEscape c.advance
          else if isSpace d || isBreak d then quotedGap c
          else .ok ([d], c.advance)
        match part with
        | .ok (cs, next) => quotedFrom fuel quote (acc ++ cs) next
        | .error e => .error e

def scanQuoted (c : Cursor) : Except MarkupError (String × Cursor) :=
  quotedFrom (c.rest.length + 1) (c.peek.getD '"') [] c.advance

/-! ### Blocks -/

/-- What becomes of the line ends after the last line. -/
inductive Chomping where
  | clip
  | strip
  | keep
deriving DecidableEq, Repr

def chomping? : Option Char → Option Chomping
  | some '+' => some .keep
  | some '-' => some .strip
  | _ => none

/-- An indentation from one to nine; zero is refused. -/
def scanIndentation (c : Cursor) : Except MarkupError (Option Nat × Cursor) :=
  match c.peek with
  | some d =>
    if d = '0' then .error .word
    else if d.isDigit then .ok (some (d.toNat - 48), c.advance)
    else .ok (none, c)
  | none => .ok (none, c)

/-- Chomping and indentation in either order. -/
def blockHeader (c : Cursor) : Except MarkupError ((Chomping × Option Nat) × Cursor) := do
  let (header, c) ← match chomping? c.peek with
    | some chomping => do
      let (indent, c) ← scanIndentation c.advance
      pure ((chomping, indent), c)
    | none => do
      let (indent, c) ← scanIndentation c
      match if indent.isSome then chomping? c.peek else none with
      | some chomping => pure ((chomping, indent), c.advance)
      | none => pure ((.clip, indent), c)
  if endsField c.peek then return (header, c) else throw .word

/-- Empty lines before the first one that is not, and the widest blanks in them. -/
def leadingLines (fuel : Nat) (acc : List Char) (widest : Nat) (c : Cursor) :
    List Char × Nat × Cursor :=
  match fuel with
  | 0 => (acc, widest, c)
  | fuel + 1 =>
    let c := c.skipBlanks
    let widest := max widest c.column
    match c.lineBreak with
    | ([], _) => (acc, widest, c)
    | (ends, after) => leadingLines fuel (acc ++ ends) widest after

/-- Blanks up to a column. -/
def indentTo (column : Nat) (c : Cursor) : Cursor :=
  let blanks := (c.rest.takeWhile (· = ' ')).length
  c.forward (min blanks (column - c.column))

/-- Empty lines within a block. -/
def emptyLines (fuel : Nat) (indent : Nat) (acc : List Char) (c : Cursor) : List Char × Cursor :=
  match fuel with
  | 0 => (acc, c)
  | fuel + 1 =>
    let c := indentTo indent c
    match c.lineBreak with
    | ([], _) => (acc, c)
    | (ends, after) => emptyLines fuel indent (acc ++ ends) after

/-- Lines of a block; `pending` are the empty lines before the next one. -/
def blockLines (fuel : Nat) (folded : Bool) (indent : Nat) (chomping : Chomping)
    (acc pending lastBreak : List Char) (c : Cursor) : String × Cursor :=
  let finish (lastBreak pending : List Char) (acc : List Char) : String :=
    String.ofList (match chomping with
      | .strip => acc
      | .clip => acc ++ lastBreak
      | .keep => acc ++ lastBreak ++ pending)
  match fuel with
  | 0 => (finish lastBreak pending acc, c)
  | fuel + 1 =>
    if c.column ≠ indent || c.rest.isEmpty then (finish lastBreak pending acc, c)
    else
      let spaced := c.peek.any isSpace
      let (line, after) := c.run fun d => !isBreak d
      let (ends, after) := after.lineBreak
      let (empty, next) := emptyLines (after.rest.length + 1) indent [] after
      let acc := acc ++ pending ++ line
      if next.column = indent && !next.rest.isEmpty then
        let joined := folded && ends = ['\n'] && !spaced && !next.peek.any isSpace
        let gap := if joined then (if empty.isEmpty then [' '] else []) else ends
        blockLines fuel folded indent chomping (acc ++ gap) empty ends next
      else (finish ends empty acc, next)

/-- A block from its mark on; `parent` is the column around it. -/
def scanBlock (parent : Int) (c : Cursor) : Except MarkupError (String × Cursor) := do
  let folded := c.peek = some '>'
  let ((chomping, indent), c) ← blockHeader c.advance
  let c ← finishLine c
  let least := max 1 (parent + 1).toNat
  let fuel := c.rest.length + 1
  match indent with
  | some n =>
    let column := least + n - 1
    let (pending, c) := emptyLines fuel column [] c
    return blockLines fuel folded column chomping [] pending [] c
  | none =>
    let (pending, widest, c) := leadingLines fuel [] 0 c
    return blockLines fuel folded (max least widest) chomping [] pending [] c

end MixedInteger.Markup
