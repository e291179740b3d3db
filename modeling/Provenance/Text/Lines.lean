/-!
Lines of a text: what stands between its line breaks.
-/
namespace Provenance.Text

def linesOf : List Char → List (List Char)
  | [] => [[]]
  | c :: cs =>
    match linesOf cs with
    | [] => [[c]]
    | l :: ls => if c = '\n' then [] :: l :: ls else (c :: l) :: ls

def lines (s : String) : List String := (linesOf s.toList).map String.ofList

end Provenance.Text
