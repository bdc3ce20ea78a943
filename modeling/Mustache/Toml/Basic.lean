namespace Mustache.Toml

/-- How a table came to be. -/
inductive Origin where
  | header
  | implied
  | dotted
deriving DecidableEq

/-- The value of a key in a TOML document. A table may be defined once; its origin decides what may
still be added to it. -/
inductive Item where
  | string (s : String)
  | integer (n : Int64)
  | float (x : Float)
  | boolean (b : Bool)
  /-- A date, a time or both, in RFC 3339 form. -/
  | dateTime (text : String)
  | array (items : List Item)
  /-- A table between braces, or one made by a dotted key between braces. -/
  | inline (origin : Origin) (entries : List (String × Item))
  | table (origin : Origin) (entries : List (String × Item))
  | tables (elements : List Item)

/-- The entries of a table, in the order in which they were made. -/
abbrev Entries := List (String × Item)

namespace Entries

def replace (key : String) (item : Item) (entries : Entries) : Entries :=
  entries.map fun (k, old) => (k, if k = key then item else old)

def remove (key : String) (entries : Entries) : Entries :=
  entries.filter (·.1 ≠ key)

def append (key : String) (item : Item) (entries : Entries) : Entries :=
  entries ++ [(key, item)]

/-- Changes the table at the end of a path. Tables that are missing on the way are made, with the
given origin. A dotted key does not lead into a table that has a header. -/
def modifyAt (made : Origin) (f : Origin → Entries → Option Entries) :
    List String → Origin → Entries → Option Entries
  | [], origin, entries => f origin entries
  | key :: path, _, entries =>
    match entries.lookup key with
    | none =>
      (modifyAt made f path made []).map fun inner => entries.append key (.table made inner)
    | some (.table origin inner) =>
      if made = .dotted && origin = .header then none
      else (modifyAt made f path origin inner).map fun inner =>
        entries.replace key (.table origin inner)
    | some (.tables elements) =>
      match elements.getLast? with
      | some (.table origin inner) =>
        (modifyAt made f path origin inner).map fun inner =>
          entries.replace key (.tables (elements.dropLast ++ [.table origin inner]))
      | _ => none
    | some _ => none

/-- Adds an entry to a table that a path of keys leads to. Only tables of dotted keys are added to
by dotted keys. -/
def addNew (path : List String) (key : String) (item : Item) (origin : Origin)
    (entries : Entries) : Option Entries :=
  if (origin = .dotted) = path.isEmpty then none
  else if (entries.lookup key).isSome then none
  else some (entries.append key item)

def addPair (entries : Entries) (path : List String) (key : String) (item : Item) :
    Option Entries :=
  modifyAt .dotted (addNew path key item) path .header entries

def addInline (item : Item) (key : String) (whole : List String) :
    List String → Origin → Entries → Option Entries
  | [], origin, entries => addNew whole key item origin entries
  | step :: path, _, entries =>
    match entries.lookup step with
    | none =>
      (addInline item key whole path .dotted []).map fun inner =>
        entries.append step (.inline .dotted inner)
    | some (.inline origin inner) =>
      if origin = .header then none
      else (addInline item key whole path origin inner).map fun inner =>
        entries.replace step (.inline origin inner)
    | some _ => none

end Entries

/-- A key with the keys before its last dot, and its item. -/
structure Pair where
  path : List String
  key : String
  item : Item

inductive Header where
  | table (path : List String) (key : String)
  | element (path : List String) (key : String)

structure Section where
  header : Header
  pairs : List Pair

def fill (entries : Entries) (pairs : List Pair) : Option Entries :=
  pairs.foldlM (fun entries p => entries.addPair p.path p.key p.item) entries

/-- Makes a table under a key. One that only tables inside it have implied so far is filled up. -/
def addTable (key : String) (pairs : List Pair) (entries : Entries) : Option Entries :=
  match entries.lookup key with
  | none => (fill [] pairs).map fun inner => entries.append key (.table .header inner)
  | some (.table .implied inner) =>
    (fill inner pairs).map fun inner => (entries.remove key).append key (.table .header inner)
  | some _ => none

def addElement (key : String) (pairs : List Pair) (entries : Entries) : Option Entries :=
  match entries.lookup key with
  | none => (fill [] pairs).map fun inner => entries.append key (.tables [.table .header inner])
  | some (.tables elements) =>
    (fill [] pairs).map fun inner =>
      entries.replace key (.tables (elements ++ [.table .header inner]))
  | some _ => none

def addSection (root : Entries) (s : Section) : Option Entries :=
  match s.header with
  | .table path key =>
    Entries.modifyAt .implied (fun _ => addTable key s.pairs) path .header root
  | .element path key =>
    Entries.modifyAt .implied (fun _ => addElement key s.pairs) path .header root

/-- The entries of a document: the pairs before the first header, then the sections. -/
def assemble (pairs : List Pair) (sections : List Section) : Option Entries := do
  sections.foldlM addSection (← fill [] pairs)

end Mustache.Toml
