import Std.Data.HashMap

/-! Values under stable identities. Identities are counted up and never reused
until the registry is emptied. A table of positions is kept in step with additions,
dropped by a deletion and rebuilt by the next lookup. -/

namespace MixedInteger

structure Registry (V : Type) where
  /-- The last identity handed out. -/
  last : Nat := 0
  entries : List (Nat × V) := []
  /-- The position of each identity, when known. -/
  slots : Option (Std.HashMap Nat Nat) := some {}

namespace Registry

variable {V : Type}

/-- The table that belongs to the entries. -/
def positions (entries : List (Nat × V)) : Std.HashMap Nat Nat :=
  ((List.range entries.length).zip entries).foldl (fun t e => t.insert e.2.1 e.1) {}

def table (r : Registry V) : Std.HashMap Nat Nat := r.slots.getD (positions r.entries)

def size (r : Registry V) : Nat := r.entries.length

def keys (r : Registry V) : List Nat := r.entries.map (·.1)

def values (r : Registry V) : List V := r.entries.map (·.2)

/-- Answers the new identity. -/
def add (r : Registry V) (v : V) : Registry V × Nat :=
  let key := r.last + 1
  ({ last := key
     entries := r.entries ++ [(key, v)]
     slots := r.slots.map fun t => t.insert key r.entries.length }, key)

def slot? (r : Registry V) (key : Int) : Option Nat :=
  if key < 0 then none else r.table[key.toNat]?

def get? (r : Registry V) (key : Int) : Option V :=
  (r.slot? key).bind fun i => (r.entries[i]?).map (·.2)

def contains (r : Registry V) (key : Int) : Bool := (r.slot? key).isSome

/-- A lookup leaves the table in place. -/
def lookup (r : Registry V) (key : Int) : Registry V × Option V :=
  ({ r with slots := some r.table }, r.get? key)

/-- Changes the value of an identity; nothing happens to a dead one. -/
def modify (r : Registry V) (key : Int) (f : V → V) : Registry V :=
  match r.slot? key with
  | none => r
  | some i => { r with entries := r.entries.modify i fun e => (e.1, f e.2) }

def mapValues (r : Registry V) (f : V → V) : Registry V :=
  { r with entries := r.entries.map fun e => (e.1, f e.2) }

/-- Nothing when the identity is dead. -/
def delete? (r : Registry V) (key : Int) : Option (Registry V × V) :=
  match r.slot? key with
  | none => none
  | some i => (r.entries[i]?).map fun e =>
    ({ r with entries := r.entries.eraseIdx i, slots := none }, e.2)

def described (r : Registry V) : String :=
  s!"EntityRegistry({r.size} items, last={r.last})"

end Registry

end MixedInteger
