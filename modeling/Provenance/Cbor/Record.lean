import Std.Data.ExtTreeMap
import Provenance.Cbor.Field

/-!
The two ways a document uses maps: records, whose text keys are fixed, and tables, whose keys are data. In both a
later entry with the same key takes the place of an earlier one, and every value has to be well formed.
-/
namespace Provenance.Cbor.Field

/-- Entry after entry into a record that starts empty; `put` sees the key if it is text. -/
def record {σ : Type} (name : String) (put : σ → Option String → Item → Outcome σ) (empty : σ) (x : Item) :
    Outcome σ := do
  let es ← map name x
  es.foldlM (fun s e => put s e.1.text? e.2) empty

def required {α : Type} (name : String) : Option α → Outcome α
  | some a => .ok a
  | none => .error (.missing name)

variable {κ β : Type} [Ord κ] [Std.TransOrd κ]

def tableEntry (key : Item → Outcome κ) (value : κ → Item → Outcome β) (m : Std.ExtTreeMap κ β) (e : Item × Item) :
    Outcome (Std.ExtTreeMap κ β) := do
  let k ← key e.1
  let b ← value k e.2
  return m.insert k b

def table (name : String) (key : Item → Outcome κ) (value : κ → Item → Outcome β) (x : Item) :
    Outcome (Std.ExtTreeMap κ β) := do
  let es ← map name x
  es.foldlM (tableEntry key value) ∅

end Provenance.Cbor.Field
