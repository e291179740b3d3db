import Provenance.Fault

/-!
Log entries: what functions note beside their results. The log of a function is a function of its own, of the same
arguments.
-/
namespace Provenance

inductive LogLevel
  | debug
  | warn
deriving DecidableEq, Repr

structure LogEntry where
  level : LogLevel
  message : String
deriving DecidableEq, Repr

abbrev Log := List LogEntry

def LogEntry.debug (message : String) : LogEntry := ⟨.debug, message⟩

def LogEntry.warn (message : String) : LogEntry := ⟨.warn, message⟩

/-- What is noted of a result; of a fault nothing is. -/
def Outcome.log {α : Type} (x : Outcome α) (f : α → Log) : Log :=
  match x with
  | .ok a => f a
  | .error _ => []

namespace Outcome

variable {α : Type} {x : Outcome α} {f : α → Log}

@[simp] theorem log_ok {a : α} : log (.ok a) f = f a := rfl

@[simp] theorem log_error {e : Fault} : log (.error e) f = [] := rfl

end Outcome

end Provenance
