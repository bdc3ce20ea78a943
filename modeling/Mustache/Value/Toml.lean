import Mustache.Toml.Reader
import Mustache.Value.Basic

namespace Mustache.Value

/-- The key that makes a date or time of a table inside a document, when it comes first in it. -/
def dateTimeKey : String := "$__toml_private_datetime"

mutual

/-- The value is missing if a table in it is to be a date or time and is none. -/
def ofTomlItem? : Toml.Item → Option Value
  | .string s => some (string s)
  | .integer n => some (int n)
  | .float x => some (float x)
  | .boolean b => some (bool b)
  | .dateTime text => some (string text)
  | .array items => (ofTomlItems? items).map list
  | .inline _ entries => ofTomlTable? entries
  | .table _ entries => ofTomlTable? entries
  | .tables elements => (ofTomlItems? elements).map list

def ofTomlItems? : List Toml.Item → Option (List Value)
  | [] => some []
  | item :: items => do
    return (← ofTomlItem? item) :: (← ofTomlItems? items)

def ofTomlTable? : List (String × Toml.Item) → Option Value
  | [] => some (map [])
  | (key, item) :: entries =>
    if key = dateTimeKey then
      match item with
      | .string s => (Toml.DateTime.ofText? s).map string
      | _ => none
    else do
      let value ← ofTomlItem? item
      return ofPairs ((key, value) :: (← ofTomlEntries? entries))

def ofTomlEntries? : List (String × Toml.Item) → Option (List (String × Value))
  | [] => some []
  | (key, item) :: entries => do
    return (key, ← ofTomlItem? item) :: (← ofTomlEntries? entries)

end

/-- The map of a TOML document. A date or time in it becomes its text. -/
def ofTomlText? (s : String) : Option Value := do
  return ofPairs (← ofTomlEntries? (← Toml.read? s))

end Mustache.Value
