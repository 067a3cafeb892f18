import MixedInteger.Data.Value
import MixedInteger.Markup.Page

/-! The document of a mapping, one entry a line. A mapping within is indented, a list
under a key is not, and what is empty stands in brackets on the line of its key. -/

namespace MixedInteger.Markup

variable {α : Type} [Scalar α]

/-- A real number always has a point. -/
def realText (x : α) : String :=
  let cs := (Scalar.text x).toList
  match String.ofList cs with
  | "nan" => ".nan"
  | "inf" => ".inf"
  | "-inf" => "-.inf"
  | s =>
    if cs.contains '.' || !cs.contains 'e' then s
    else String.ofList (cs.takeWhile (· ≠ 'e') ++ '.' :: '0' :: cs.dropWhile (· ≠ 'e'))

/-- The text of a value that is no list and no mapping, with its kind. Complex numbers have no
kind here. -/
def scalarText? : Value α → Option (NodeKind × String)
  | .null => some (.null, "null")
  | .bool b => some (.bool, if b then "true" else "false")
  | .int i => some (.int, toString i)
  | .real x => some (.real, realText x)
  | .text s => some (.text, s)
  | .moment s => some (.moment, s)
  | .complex .. | .list _ | .map _ => none

/-- The width of a kind's tag, which counts as a part of a key. -/
def tagWidth : NodeKind → Nat
  | .null | .bool => 6
  | .real => 7
  | .moment => 11
  | _ => 5

/-- May a key stand before its colon on one line? -/
def isShortKey (kind : NodeKind) (text : String) : Bool :=
  !text.isEmpty && !text.toList.any isBreak && text.length + tagWidth kind < 128

/-- What stands for an empty list or mapping. -/
def emptyText? : Value α → Option String
  | .list [] => some "[]"
  | .map [] => some "\x7b\x7d"
  | _ => none

namespace Page

/-- A value of one line or one text behind a mark, if it is one. -/
def putSimple? (indent : Nat) (v : Value α) (p : Page) : Option Page :=
  match emptyText? v, scalarText? v with
  | some s, _ => some (p.put (' ' :: s.toList))
  | none, some (kind, text) => some ((p.put [' ']).putText kind true indent text)
  | none, none => none

/-- A key with its colon. Beside the page it tells whether the value stands on a line
of its own. -/
def putKey (indent : Nat) (key : Value α) (p : Page) : Bool × Page :=
  let (kind, text) := (scalarText? key).getD (.text, "")
  if isShortKey kind text then
    (false, (p.putText kind false indent text).put [':'])
  else
    (true, (((p.put ['?', ' ']).putText kind true (indent + 2) text).breakTo indent).put [':'])

mutual
/-- A value behind a mark of one character; what is long begins on the same line. -/
def putBehind (indent : Nat) (v : Value α) (p : Page) : Page :=
  match putSimple? indent v p with
  | some p => p
  | none =>
    match v with
    | .list items => putItems indent true items (p.put [' '])
    | .map entries => putEntries indent true entries (p.put [' '])
    | _ => p

/-- A value under a key; what is long begins on a new line. -/
def putUnder (indent : Nat) (v : Value α) (p : Page) : Page :=
  match putSimple? (indent + 2) v p with
  | some p => p
  | none =>
    match v with
    | .list items => putItems indent true items (p.breakTo indent)
    | .map entries => putEntries (indent + 2) true entries (p.breakTo (indent + 2))
    | _ => p

def putItems (indent : Nat) (first : Bool) (items : List (Value α)) (p : Page) : Page :=
  match items with
  | [] => p
  | v :: vs =>
    let p := if first then p else p.breakTo indent
    putItems indent false vs (putBehind (indent + 2) v (p.put ['-']))

def putEntries (indent : Nat) (first : Bool) (entries : List (Value α × Value α)) (p : Page) :
    Page :=
  match entries with
  | [] => p
  | (key, v) :: es =>
    let (apart, p) := putKey indent key (if first then p else p.breakTo indent)
    putEntries indent false es (if apart then putBehind (indent + 2) v p else putUnder indent v p)
end

end Page

/-- The document of a mapping. -/
def write (entries : List (Value α × Value α)) : String :=
  if entries.isEmpty then "\x7b\x7d\n" else (Page.putEntries 0 true entries {}).text ++ "\n"

end MixedInteger.Markup
