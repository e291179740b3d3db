/-!
Faults: why an operation on a document, a key or a certificate fails. The kind of a fault is what a
caller may branch on, its detail is for people.
-/
namespace Provenance

inductive Fault
  | malformed (detail : String)
  | missing (field : String)
  | duplicated (field : String)
  | mistyped (detail : String)
  | unsupported (detail : String)
  | forged (detail : String)
  /-- A primitive refused its input; its own wording is not part of the fault. -/
  | provider
  deriving DecidableEq, Repr, Inhabited

namespace Fault

/-- Input that is malformed, incomplete or of a form this library does not read. -/
def isFormat : Fault → Bool
  | forged _ | provider => false
  | _ => true

def isSignature : Fault → Bool
  | forged _ => true
  | _ => false

def detail : Fault → String
  | malformed s | missing s | duplicated s | mistyped s | unsupported s | forged s => s
  | provider => ""

def message : Fault → String
  | malformed s => "Syntax error: " ++ s
  | missing s => "Missing field: " ++ s
  | duplicated s => "Duplicated field: " ++ s
  | mistyped s => "Field type mismatch: " ++ s
  | unsupported s => "Unsupported: " ++ s
  | forged s => "Signature verification failed: " ++ s
  | provider => "Crypto provider error"

theorem isFormat_iff (f : Fault) : f.isFormat = true ↔ f.isSignature = false ∧ f ≠ .provider := by
  cases f <;> simp [isFormat, isSignature]

end Fault

abbrev Outcome (α : Type) := Except Fault α

end Provenance
