import MixedInteger.Text.Quoted

/-! Identities by name. The index is built by the first lookup from a scan of all
names, and a name that occurs twice makes the build fail. Afterwards renamings
are followed; one onto a name that is taken drops the index again. -/

namespace MixedInteger

structure NameIndex (I : Type) where
  kind : String
  /-- Distinct names with their identities, once built. -/
  map : Option (List (String × I)) := none

/-- A name that two live entities share. -/
structure DuplicateName where
  kind : String
  name : String
deriving DecidableEq, Repr

def DuplicateName.message (d : DuplicateName) : String :=
  "Duplicate " ++ d.kind ++ " name detected: " ++ Text.quoted d.name

namespace NameIndex

variable {I : Type}

def built (n : NameIndex I) : Bool := n.map.isSome

def invalidate (n : NameIndex I) : NameIndex I := { n with map := none }

/-- The named entries of a scan in order, or the first name that occurs again. -/
def collect (known : List (String × I)) : List (String × I) → Except String (List (String × I))
  | [] => .ok known
  | (name, i) :: rest =>
    if name.isEmpty then collect known rest
    else if (known.lookup name).isSome then .error name
    else collect (known ++ [(name, i)]) rest

/-- Builds the index from a scan. A failure leaves it unbuilt. -/
def rebuild (n : NameIndex I) (scan : List (String × I)) :
    Except DuplicateName (List (String × I)) × NameIndex I :=
  match collect [] scan with
  | .ok m => (.ok m, { n with map := some m })
  | .error name => (.error ⟨n.kind, name⟩, n.invalidate)

def lookup (n : NameIndex I) (scan : List (String × I)) (name : String) :
    Except DuplicateName (Option I) × NameIndex I :=
  match n.map with
  | some m => (.ok (m.lookup name), n)
  | none =>
    let (found, n) := n.rebuild scan
    (found.map fun m => m.lookup name, n)

/-- Follows a renaming from `old` to `new`. -/
def update (n : NameIndex I) (old new : String) (i : I) : NameIndex I :=
  match n.map with
  | none => n
  | some m =>
    let m := m.filter fun e => e.1 != old
    if new.isEmpty then { n with map := some m }
    else if (m.lookup new).isSome then n.invalidate
    else { n with map := some (m ++ [(new, i)]) }

def described (n : NameIndex I) : String :=
  let size := match n.map with
    | none => "unbuilt"
    | some m => s!"{m.length} names"
  "NameIndex(" ++ n.kind ++ ", " ++ size ++ ")"

end NameIndex

end MixedInteger
