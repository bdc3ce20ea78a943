import Mustache.Program.Op
import Mustache.Text.Quoted

namespace Mustache

def Op.description : Op → String
  | .literal text => "literal " ++ Text.quoted text
  | .escaped name => "escaped " ++ name
  | .unescaped name => "raw " ++ name
  | .openSection name inverted bodyLength _ =>
    (if inverted then "inverted " else "section ") ++ name ++ " (" ++ toString bodyLength ++ " ops)"
  | .closeSection name => "end " ++ name
  | .inclusion name => "partial " ++ name

def paddedIndex (n : Nat) : String :=
  let digits := toString n
  String.ofList (List.replicate (4 - digits.length) '0') ++ digits

/-- The lines for operations from `index` on, inside `depth` sections. -/
def Op.listing (index depth : Nat) : List Op → String
  | [] => ""
  | op :: ops =>
    let depth := if op matches .closeSection _ then depth - 1 else depth
    let inner := if op matches .openSection .. then depth + 1 else depth
    paddedIndex index ++ " " ++ String.ofList (List.replicate (2 * depth) ' ') ++ op.description
      ++ "\n" ++ listing (index + 1) inner ops

def Program.listing (p : Program) : String :=
  Op.listing 0 0 p.ops

end Mustache
