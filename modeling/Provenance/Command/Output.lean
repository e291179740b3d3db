import Provenance.Log
import Provenance.Text.Lines

/-!
Output of a request: texts and log entries on one stream, the reason of a failure on another.
-/
namespace Provenance.Command

/-- What is printed at a time, on the same stream in either case. -/
inductive Printed
  | text (t : String)
  | entry (e : LogEntry)

namespace Printed

def isShown (verbose : Bool) : Printed → Bool
  | text _ => true
  | entry e => verbose || e.level = .warn

def plain : Printed → List String
  | text t => [t]
  | entry e => (Text.lines e.message).tail

end Printed

/-- How entries are put in text, which may depend on how much was printed before. -/
structure LogStyle where
  render : Nat → LogEntry → String
  /-- An entry tells its level or its time, so that it is not taken for a text without colons. -/
  marked : ∀ i e, ':' ∈ (render i e).toList

namespace LogStyle

def head : LogLevel → String
  | .debug => "DEBUG: "
  | .warn => "WARN: "

/-- The level before the message. -/
def levels : LogStyle where
  render _ e := head e.level ++ e.message
  marked _ e := by
    rw [String.toList_append, List.mem_append]
    left
    cases e.level <;> decide

end LogStyle

structure Output where
  printed : List Printed
  err : List String

namespace Output

/-- What is printed but for the lines that begin entries, which may tell the time. -/
def out (o : Output) : List String := o.printed.flatMap Printed.plain

def texts (o : Output) (style : LogStyle) : List String :=
  o.printed.mapIdx fun i x => match x with
    | .text t => t
    | .entry e => style.render i e

end Output

end Provenance.Command
