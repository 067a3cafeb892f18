import MixedInteger.Data.Value

/-! Data used as a mapping or as a sequence. Keys are equal when they are equal as
numbers or as texts; lists and mappings are no keys. -/

namespace MixedInteger.Value

variable {α : Type} [Scalar α]

/-- The exact number that a key is, truth values being zero and one. -/
def keyNumber? : Value α → Option (Int ⊕ α)
  | bool b => some (.inl (if b then 1 else 0))
  | int i => some (.inl i)
  | real x =>
    if Scalar.isFinite x && Scalar.ofInt (Scalar.floorInt x) == x then some (.inl (Scalar.floorInt x))
    else some (.inr x)
  | _ => none

def sameKey (a b : Value α) : Bool :=
  match a, b with
  | null, null => true
  | text s, text t => s == t
  | moment s, moment t => s == t
  | a, b =>
    match a.keyNumber?, b.keyNumber? with
    | some (.inl i), some (.inl j) => i == j
    | some (.inr x), some (.inr y) => x == y
    | _, _ => false

def isKey : Value α → Bool
  | list _ | map _ => false
  | _ => true

/-- A key that is there keeps its place; a new one goes to the end. -/
def put (key value : Value α) : List (Value α × Value α) → List (Value α × Value α)
  | [] => [(key, value)]
  | e :: es => if sameKey e.1 key then (e.1, value) :: es else e :: put key value es

/-- What the data consist of: the items of a list, the keys of a mapping, the
characters of a text. -/
def elements? : Value α → Option (List (Value α))
  | list items => some items
  | map entries => some (entries.map (·.1))
  | text s => some (s.toList.map fun c => text (String.singleton c))
  | _ => none

/-- An entry out of two elements. -/
def entryOf (v : Value α) : Except ConversionError (Value α × Value α) :=
  match v.elements? with
  | some [key, value] => if key.isKey then .ok (key, value) else .error .kind
  | some _ => .error .invalid
  | none => .error .kind

/-- A mapping, or a list of entries; what counts as false is an empty one. -/
def toEntries (v : Value α) : Except ConversionError (List (Value α × Value α)) :=
  if !v.truthy then .ok []
  else match v with
    | map entries => .ok entries
    | v =>
      match v.elements? with
      | none => .error .kind
      | some items =>
        items.foldlM (fun entries item => do
          let e ← entryOf item
          return put e.1 e.2 entries) []

mutual
/-- With texts for keys, here and within; of two keys with one text the later counts. -/
def withTextKeys : Value α → Value α
  | list items => list (textKeyItems items)
  | map entries => map (textKeyEntries entries [])
  | v => v

def textKeyItems : List (Value α) → List (Value α)
  | [] => []
  | v :: vs => v.withTextKeys :: textKeyItems vs

def textKeyEntries (es acc : List (Value α × Value α)) : List (Value α × Value α) :=
  match es with
  | [] => acc
  | (k, v) :: es => textKeyEntries es (put (text k.shown) v.withTextKeys acc)
end

end MixedInteger.Value
