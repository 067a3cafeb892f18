/-! Sets of characters as sorted ranges of code points. A table is written as
hexadecimal words, `a` for one code point and `a-b` for a range. -/

namespace MixedInteger.Text

def hexDigit (c : Char) : Option Nat :=
  if '0' ≤ c ∧ c ≤ '9' then some (c.toNat - 48)
  else if 'a' ≤ c ∧ c ≤ 'f' then some (c.toNat - 87)
  else if 'A' ≤ c ∧ c ≤ 'F' then some (c.toNat - 55)
  else none

/-- Characters that are no digits are skipped. -/
def hexNat (cs : List Char) : Nat :=
  cs.foldl (fun n c => match hexDigit c with | some d => 16 * n + d | none => n) 0

/-- Pieces between separators, empty ones kept. -/
def splitOn (sep : Char) : List Char → List (List Char)
  | [] => [[]]
  | c :: cs =>
    let rest := splitOn sep cs
    if c = sep then [] :: rest
    else match rest with
      | [] => [[c]]
      | piece :: pieces => (c :: piece) :: pieces

/-- Words between blanks and line ends. -/
def wordsOf (s : String) : List (List Char) :=
  (splitOn ' ' (s.toList.map fun c => if c = '\n' then ' ' else c)).filter (!·.isEmpty)

structure Range where
  first : Nat
  last : Nat
deriving Repr

def Range.ofWord (w : List Char) : Range :=
  match splitOn '-' w with
  | [a, b] => ⟨hexNat a, hexNat b⟩
  | _ => ⟨hexNat w, hexNat w⟩

abbrev Ranges := Array Range

def Ranges.ofText (s : String) : Ranges :=
  ((wordsOf s).map Range.ofWord).toArray

def Ranges.contains (r : Ranges) (c : Char) : Bool :=
  r.any fun x => x.first ≤ c.toNat && c.toNat ≤ x.last

end MixedInteger.Text
