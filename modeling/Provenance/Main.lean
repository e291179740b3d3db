import Std.Time.DateTime.Timestamp
import Provenance.Command.Report

/-!
The command line: reads the files that a request names, and prints the report.
-/
namespace Provenance.Command

def usage : List String :=
  ["usage: provenance [-v] vical [-i FILE] [-r BUNDLE | -t LIST]",
    "       provenance [-v] mso [-i FILE] [-r BUNDLE]",
    "       provenance [-v] time [-d TEXT | -e [-u]]"]

def problem : IO.Error → String
  | .noFileOrDirectory .. => "No such file or directory (os error 2)"
  | .permissionDenied .. => "Permission denied (os error 13)"
  | e => toString e

def readFile (path : String) : IO (Except String Octets) := do
  try
    let b ← IO.FS.readBinFile path
    return .ok b.data.toList
  catch e => return .error (problem e)

def now : IO Calendar.Instant := do
  let t ← Std.Time.Timestamp.now
  return (Calendar.Instant.of? t.val.second.val t.val.nano.val.toNat).getD .epoch

def surroundings (r : Request) : IO Surroundings := do
  let files ← r.task.paths.mapM fun p => do return (p, ← readFile p)
  return ⟨← now, fun p => (files.lookup p).getD (.error "not read")⟩

end Provenance.Command

section

open Provenance Provenance.Command

def main (args : List String) : IO UInt32 := do
  match Request.ofArguments? args with
  | some r =>
    let o := r.answer .standard (← surroundings r)
    (o.texts .levels).forM IO.println
    o.err.forM IO.eprintln
    return 0
  | none =>
    usage.forM IO.eprintln
    return 2

end
