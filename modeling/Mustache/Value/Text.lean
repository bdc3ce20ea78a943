import Mustache.Number.Shortest
import Mustache.Value.Basic

namespace Mustache.Value

mutual

/-- What a variable tag writes for a value. Lists are joined by commas; maps and functions have no
text. -/
def text : Value → String
  | null => ""
  | bool b => if b then "true" else "false"
  | int n => toString n.toInt
  | float x => Number.floatText x
  | string s => s
  | list items => ",".intercalate (texts items)
  | map _ | computed _ | sectionLambda _ => ""

def texts : List Value → List String
  | [] => []
  | item :: items => text item :: texts items

end

end Mustache.Value
