import MixedInteger.Fault
import MixedInteger.Journal
import MixedInteger.Solver.Request

/-! Work that consults a solver. A task may report what it does and may fail;
what was asked and reported before the failure is not lost. -/

namespace MixedInteger

structure Session (α σ : Type) where
  world : σ
  journal : Array (Notice α) := #[]

abbrev Task (α σ : Type) := EStateM (Fault α) (Session α σ)

namespace Task

variable {α σ : Type}

def tell (n : Notice α) : Task α σ Unit :=
  modify fun s => { s with journal := s.journal.push n }

/-- Reports from a message level on. -/
def tellAt (least level : Int) (n : Notice α) : Task α σ Unit :=
  if least ≤ level then tell n else pure ()

def ask (host : Host α σ) (r : Request α) : Task α σ (Answer α) := fun s =>
  match host.solve r s.world with
  | (.ok a, w) => .ok a { s with world := w }
  | (.error e, w) => .error (.solver e) { s with world := w }

/-- Seconds on the clock of the world. -/
def now (host : Host α σ) : Task α σ α := fun s => .ok (host.now s.world) s

def ofRounding {β : Type} : Except RoundingError β → Task α σ β
  | .ok b => pure b
  | .error e => throw (.rounding e)

/-- An integer as a number, unless it is too large for one. -/
def number [Scalar α] (i : Int) : Task α σ α :=
  match Scalar.ofInt? i with
  | some x => pure x
  | none => throw (.conversion .overflow)

end Task

end MixedInteger
