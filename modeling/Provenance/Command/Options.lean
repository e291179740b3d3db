/-!
Options on a command line: `--name value`, `--name=value`, `-n value`, `-nvalue`, and flags, which take no value and
may share a dash.
-/
namespace Provenance.Command

structure OptionSpec where
  name : String
  short : Char
  takesValue : Bool

abbrev Given := List (String × String)

namespace Given

def get? (g : Given) (name : String) : Option String := g.lookup name

def has (g : Given) (name : String) : Bool := (g.get? name).isSome

def distinct : Given → Bool
  | [] => true
  | o :: g => !has g o.1 && distinct g

end Given

/-- What one argument says: options, and perhaps the name of one whose value is the next argument. -/
abbrev Said := Given × Option String

def long? (specs : List OptionSpec) (cs : List Char) : Option Said := do
  let o ← specs.find? (·.name.toList = cs.takeWhile (· ≠ '='))
  match o.takesValue, cs.dropWhile (· ≠ '=') with
  | true, _ :: v => return ([(o.name, String.ofList v)], none)
  | true, [] => return ([], some o.name)
  | false, [] => return ([(o.name, "")], none)
  | false, _ => none

def shorts? (specs : List OptionSpec) : List Char → Option Said
  | [] => some ([], none)
  | c :: cs => do
    let o ← specs.find? (·.short = c)
    if !o.takesValue then
      let (g, pending?) ← shorts? specs cs
      return ((o.name, "") :: g, pending?)
    match cs with
    | [] => return ([], some o.name)
    | '=' :: v => return ([(o.name, String.ofList v)], none)
    | v => return ([(o.name, String.ofList v)], none)

def argument? (specs : List OptionSpec) (a : String) : Option Said :=
  match a.toList with
  | '-' :: '-' :: cs => long? specs cs
  | '-' :: c :: cs => shorts? specs (c :: cs)
  | _ => none

def isValue (a : String) : Bool := a = "-" || a.toList.head? ≠ some '-'

/-- Nothing if an argument is no option, a value is wanting, or an option comes twice. -/
def options? (specs : List OptionSpec) (args : List String) : Option Given :=
  let rec read : List String → Option Given
    | [] => some []
    | a :: rest => do
      match ← argument? specs a with
      | (g, none) => return g ++ (← read rest)
      | (g, some name) =>
        match rest with
        | v :: rest => if isValue v then return g ++ (name, v) :: (← read rest) else none
        | [] => none
  (read args).bind fun g => if g.distinct then some g else none

end Provenance.Command
