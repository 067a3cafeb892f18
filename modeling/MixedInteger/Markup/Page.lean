import MixedInteger.Markup.Resolution
import MixedInteger.Markup.Token
import MixedInteger.Text.Quoted

/-! Texts on the page of a document. A text that would be read as something else, or
whose marks have a meaning, stands in quotes, and one with unusual characters in double
quotes with escapes. Lines are folded at a blank once they are wider than eighty. -/

namespace MixedInteger.Markup

structure Page where
  text : String := ""
  column : Nat := 0

namespace Page

def put (cs : List Char) (p : Page) : Page :=
  ⟨p.text ++ String.ofList cs, p.column + cs.length⟩

def blanks (n : Nat) : List Char := List.replicate n ' '

/-- A new line that begins at a column. -/
def breakTo (column : Nat) (p : Page) : Page :=
  ⟨p.text ++ String.ofList ('\n' :: blanks column), column⟩

/-- Lines are folded behind this column. -/
def width : Nat := 80

end Page

/-! ### Styles -/

inductive Style where
  | plain
  | single
  | double
deriving DecidableEq, Repr

/-- Characters that are written as they are. -/
def isOrdinary (c : Char) : Bool := c = '\n' || (' ' ≤ c && c ≤ '~')

/-- Characters that have a meaning at the beginning of a text. -/
def openingMarks : List Char :=
  "#,[]&*!|>'\"%@".toList ++ [0x7B, 0x7D, 0x60].map Char.ofNat

/-- Is there a mark with a meaning behind the first character? A colon before a blank
and a number sign behind one are such marks. -/
def hasInnerMark : List Char → Bool
  | a :: b :: cs =>
    (b = ':' && endsWord cs.head?) || (b = '#' && (isSpace a || isBreak a)) || hasInnerMark (b :: cs)
  | _ => false

def hasMarks (cs : List Char) : Bool :=
  match cs with
  | [] => false
  | c :: rest =>
    openingMarks.contains c || (['?', ':', '-'].contains c && endsWord rest.head?) ||
      "---".toList.isPrefixOf cs || "...".toList.isPrefixOf cs || hasInnerMark cs

/-- Is there a blank next to a line end? -/
def hasBlankAtBreak : List Char → Bool
  | a :: b :: cs => (a = ' ' && b = '\n') || (a = '\n' && b = ' ') || hasBlankAtBreak (b :: cs)
  | _ => false

def needsEscapes (cs : List Char) : Bool := !cs.all isOrdinary || hasBlankAtBreak cs

def staysPlain (cs : List Char) : Bool :=
  !cs.contains '\n' && cs.head? ≠ some ' ' && cs.getLast? ≠ some ' ' && !hasMarks cs

/-- The style of a text of a kind. -/
def styleOf (kind : NodeKind) (cs : List Char) : Style :=
  if needsEscapes cs then .double
  else if !cs.isEmpty && staysPlain cs && NodeKind.ofPlain (String.ofList cs) = kind then .plain
  else .single

/-! ### Plain and single-quoted texts -/

namespace Page

/-- A blank, or a new line in its place where the page is too wide. -/
def putBlanks (fold : Bool) (indent : Nat) (run : List Char) (p : Page) : Page :=
  if fold && run.length = 1 && p.column > width then p.breakTo indent else p.put run

/-- Runs of blanks, of line ends and of other characters. -/
def textRuns (cs : List Char) : List (List Char) :=
  let kind (c : Char) : Nat := if c = ' ' then 0 else if c = '\n' then 1 else 2
  cs.splitBy fun a b => kind a = kind b

/-- Line ends of a text, one more of them on the page; then the next line's indentation. -/
def putBreaks (count indent : Nat) (p : Page) : Page :=
  ⟨p.text ++ String.ofList (List.replicate (count + 1) '\n' ++ blanks indent), indent⟩

/-- Runs of a text. Blanks at its beginning and its end are not folded. -/
def putRuns (split : Bool) (indent : Nat) (first : Bool) (p : Page) : List (List Char) → Page
  | [] => p
  | run :: runs =>
    let p := match run.head? with
      | some ' ' => putBlanks (split && !first && !runs.isEmpty) indent run p
      | some '\n' => putBreaks run.length indent p
      | _ => p.put (run.flatMap fun c => if c = '\'' then ['\'', '\''] else [c])
    putRuns split indent false p runs

def putSingle (split : Bool) (indent : Nat) (cs : List Char) (p : Page) : Page :=
  (putRuns split indent true (p.put ['\'']) (textRuns cs)).put ['\'']

/-- Without a change to quotes. -/
def putPlain (split : Bool) (indent : Nat) (cs : List Char) (p : Page) : Page :=
  (textRuns cs).foldl (fun p run =>
    if run.head? = some ' ' then putBlanks split indent run p else p.put run) p

/-! ### Double-quoted texts -/

def upperHex (width n : Nat) : List Char := (Text.hexFigures width n).map Char.toUpper

/-- How a character is written within double quotes, if not as it is. -/
def escapeOf? (c : Char) : Option (List Char) :=
  let short := [(0, '0'), (7, 'a'), (8, 'b'), (9, 't'), (10, 'n'), (11, 'v'), (12, 'f'), (13, 'r'),
    (27, 'e'), (34, '"'), (92, '\\'), (0x85, 'N'), (0xA0, '_'), (0x2028, 'L'), (0x2029, 'P')]
  if ' ' ≤ c && c ≤ '~' && c ≠ '"' && c ≠ '\\' then none
  else match short.lookup c.toNat with
    | some d => some ['\\', d]
    | none =>
      if c.toNat ≤ 0xFF then some ('\\' :: 'x' :: upperHex 2 c.toNat)
      else if c.toNat ≤ 0xFFFF then some ('\\' :: 'u' :: upperHex 4 c.toNat)
      else some ('\\' :: 'U' :: upperHex 8 c.toNat)

/-- A folded line ends in a backslash, and so begins one with a blank. -/
def foldDouble (indent : Nat) (next : Option Char) (p : Page) : Page :=
  let p := (p.put ['\\']).breakTo indent
  if next = some ' ' then p.put ['\\'] else p

/-- The rest of a text; `pending` is not on the page yet. No line is folded behind the
first character or before the last one. -/
def putEscaped (split : Bool) (indent : Nat) (first : Bool) (pending : List Char) (p : Page) :
    List Char → Page
  | [] => p.put pending
  | c :: cs =>
    let inside := split && !first && !cs.isEmpty
    match escapeOf? c with
    | some e =>
      let p := (p.put pending).put e
      let p := if inside && p.column > width + 1 then foldDouble indent cs.head? p else p
      putEscaped split indent false [] p cs
    | none =>
      if inside && (c = ' ' || pending.isEmpty) && p.column + pending.length > width then
        putEscaped split indent false [c] (foldDouble indent (some c) (p.put pending)) cs
      else putEscaped split indent false (pending ++ [c]) p cs

def putDouble (split : Bool) (indent : Nat) (cs : List Char) (p : Page) : Page :=
  (putEscaped split indent true [] (p.put ['"']) cs).put ['"']

/-- A text in its style. -/
def putText (kind : NodeKind) (split : Bool) (indent : Nat) (text : String) (p : Page) : Page :=
  let cs := text.toList
  match styleOf kind cs with
  | .plain => putPlain split indent cs p
  | .single => putSingle split indent cs p
  | .double => putDouble split indent cs p

end Page

end MixedInteger.Markup
