/-! # TOML documents

A document is a table: a list of entries in the order in which their keys first appear. How a table
came to be written decides what may still be added to it. A header opens a table once, also one that
deeper headers have implied; a dotted key extends only tables that dotted keys have made.
-/
namespace Stencil

inductive Toml.Origin
  | braces
  | header
  /-- A header of a table below it. -/
  | deeperHeader
  | dottedKey
  deriving DecidableEq

inductive Toml
  | string (text : String)
  | integer (value : Int)
  | float (value : Float)
  | boolean (value : Bool)
  | dateTime
  | array (items : List Toml)
  | table (origin : Toml.Origin) (entries : List (String × Toml))
  /-- Tables under a header in double brackets, the last of which may be added to. -/
  | tables (rows : List (List (String × Toml)))

namespace Toml

abbrev Entries := List (String × Toml)

namespace Entries

/-- Replaces what stands under a key, or puts a new key at the end. -/
def put (entries : Entries) (key : String) (value : Toml) : Entries :=
  if (entries.lookup key).isSome then
    entries.map fun e => if e.1 == key then (key, value) else e
  else entries ++ [(key, value)]

def remove (entries : Entries) (key : String) : Entries := entries.filter (·.1 != key)

def add? (entries : Entries) (key : String) (value : Toml) : Option Entries :=
  if (entries.lookup key).isSome then none else some (entries ++ [(key, value)])

/-- Changes the table that a path of header names leads to; for a list of tables that is its last
row. Missing tables are made on the way. -/
def atHeader? (change : Entries → Option Entries) : Entries → List String → Option Entries
  | entries, [] => change entries
  | entries, key :: path =>
    match entries.lookup key with
    | none =>
      (atHeader? change [] path).map fun inner => entries.put key (.table .deeperHeader inner)
    | some (.table .braces _) => none
    | some (.table origin inner) =>
      (atHeader? change inner path).map fun inner => entries.put key (.table origin inner)
    | some (.tables rows) =>
      (atHeader? change (rows.getLast?.getD []) path).map fun row =>
        entries.put key (.tables (rows.dropLast ++ [row]))
    | some _ => none

/-- Adds a value under a dotted key. The table that gets it must have been made by dotted keys, as
must the tables on the way, unless a header below has made them. -/
def addDotted? (value : Toml) : Entries → List String → Option Entries
  | _, [] => none
  | entries, [key] => entries.add? key value
  | entries, key :: path =>
    match entries.lookup key with
    | none => (addDotted? value [] path).map fun inner => entries.put key (.table .dottedKey inner)
    | some (.table .dottedKey inner) =>
      (addDotted? value inner path).map fun inner => entries.put key (.table .dottedKey inner)
    | some (.table .deeperHeader inner) =>
      if path.length ≤ 1 then none
      else
        (addDotted? value inner path).map fun inner =>
          entries.put key (.table .deeperHeader inner)
    | some (.tables rows) =>
      if path.length ≤ 1 then none
      else
        (addDotted? value (rows.getLast?.getD []) path).map fun row =>
          entries.put key (.tables (rows.dropLast ++ [row]))
    | some _ => none

/-- Opens the table under a header. One that deeper headers have implied keeps what it holds and
moves behind the other keys. -/
def openTable? (entries : Entries) (key : String) : Option Entries :=
  match entries.lookup key with
  | none => some (entries ++ [(key, .table .header [])])
  | some (.table .deeperHeader inner) => some (entries.remove key ++ [(key, .table .header inner)])
  | some _ => none

/-- Begins a row of the list of tables under a header in double brackets. -/
def openRow? (entries : Entries) (key : String) : Option Entries :=
  match entries.lookup key with
  | none => some (entries ++ [(key, .tables [[]])])
  | some (.tables rows) => some (entries.put key (.tables (rows ++ [[]])))
  | some _ => none

end Entries
end Toml
end Stencil
