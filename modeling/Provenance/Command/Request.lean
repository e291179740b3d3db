import Provenance.Asn1.Time
import Provenance.Command.Options

/-!
Requests that a command line may make.
-/
namespace Provenance.Command

open Asn1 (TimeFormat)

inductive AnchorFile
  | bundle (path : String)
  | list (path : String)

namespace AnchorFile

def path : AnchorFile → String
  | bundle p | list p => p

end AnchorFile

inductive TimeRequest
  | decode (text : String)
  | encodeNow (format : TimeFormat)
  | nothing

inductive Task
  | issuerList (path : String) (anchors? : Option AnchorFile)
  | issuerAuth (path : String) (anchors? : Option AnchorFile)
  | time (request : TimeRequest)

structure Request where
  task : Task
  /-- Whether what is logged for debugging is printed as well. -/
  verbose : Bool

namespace Task

def paths : Task → List String
  | issuerList p a? | issuerAuth p a? => p :: (a?.map AnchorFile.path).toList
  | time _ => []

end Task

namespace Request

def verboseOption : OptionSpec := ⟨"verbose", 'v', false⟩

def issuerListOptions : List OptionSpec :=
  [⟨"vical", 'i', true⟩, ⟨"roots", 'r', true⟩, ⟨"tastore", 't', true⟩]

def issuerAuthOptions : List OptionSpec := [⟨"issuer-auth", 'i', true⟩, ⟨"roots", 'r', true⟩]

def timeOptions : List OptionSpec := [⟨"decode", 'd', true⟩, ⟨"encode-now", 'e', false⟩, ⟨"utc", 'u', false⟩]

def issuerListOf? (g : Given) : Option Task :=
  let path := (g.get? "vical").getD "vical.cbor"
  match g.get? "roots", g.get? "tastore" with
  | some r, none => some (.issuerList path (some (.bundle r)))
  | none, some t => some (.issuerList path (some (.list t)))
  | none, none => some (.issuerList path none)
  | some _, some _ => none

def issuerAuthOf? (g : Given) : Option Task :=
  some (.issuerAuth ((g.get? "issuer-auth").getD "issuerauth.cbor") ((g.get? "roots").map .bundle))

/-- The format is chosen for the current time only, and there is nothing to decode beside it. -/
def timeOf? (g : Given) : Option Task :=
  let format := if g.has "utc" then TimeFormat.utc else .generalized
  match g.get? "decode", g.has "encode-now" with
  | some _, true => none
  | some s, false => if g.has "utc" then none else some (.time (.decode s))
  | none, true => some (.time (.encodeNow format))
  | none, false => if g.has "utc" then none else some (.time .nothing)

def ofOptions? (specs : List OptionSpec) (task? : Given → Option Task) (verbose : Bool) (args : List String) :
    Option Request := do
  let g ← options? (verboseOption :: specs) args
  return ⟨← task? g, verbose || g.has verboseOption.name⟩

def ofCommand? (verbose : Bool) (command : String) (args : List String) : Option Request :=
  match command with
  | "vical" => ofOptions? issuerListOptions issuerListOf? verbose args
  | "mso" => ofOptions? issuerAuthOptions issuerAuthOf? verbose args
  | "time" => ofOptions? timeOptions timeOf? verbose args
  | _ => none

/-- That debugging is to be printed may be said before the command or after it. -/
def ofArguments? : List String → Option Request
  | "-v" :: command :: args | "--verbose" :: command :: args => ofCommand? true command args
  | command :: args => ofCommand? false command args
  | [] => none

end Request

end Provenance.Command
