/-! # TOML tables

A document is a table of named values, built up from its lines. Whether a table may still be
added to depends on how it came about (`Origin`): a header opens each table once, dotted keys add
only to tables that dotted keys made, and a table written as a value is closed.

Main definitions: `Table.insert?`, `Table.open?`, `Table.append?`.
-/

set_option autoImplicit false

namespace Dynascope.Toml

/-- How a table came about. -/
inductive Origin where
  /-- by its own header, or as an element of an array of tables -/
  | header
  /-- as the parent of a table with a header -/
  | parent
  /-- by dotted keys -/
  | dotted
  /-- as a value in braces -/
  | braces
deriving DecidableEq, Repr

/-- A TOML value. Of numbers with a fraction and of dates only the kind is kept. -/
inductive Value where
  | string (s : String)
  | integer (n : Int64)
  | float
  | boolean (b : Bool)
  | datetime
  | array (items : List Value)
  | table (origin : Origin) (fields : List (String × Value))
  | tables (elements : List (List (String × Value)))
deriving Repr, Inhabited

/-- The fields of a table, in the order in which they appeared. No key is repeated. -/
abbrev Table : Type := List (String × Value)

/-- The value of a key. -/
def Table.get? (table : Table) (key : String) : Option Value :=
  (table.find? (·.1 == key)).map (·.2)

/-- Gives a key a value, in its old place if it has one. -/
def Table.set (table : Table) (key : String) (value : Value) : Table :=
  match table with
  | [] => [(key, value)]
  | (other, old) :: rest =>
    if other == key then (key, value) :: rest else (other, old) :: Table.set rest key value

/-- Changes the last of the elements of an array of tables. -/
def changeLast? (change : Table → Option Table) : List Table → Option (List Table)
  | [] => none
  | [last] => (change last).map ([·])
  | first :: rest => (changeLast? change rest).map (first :: ·)

/-- Adds a value under a dotted key, given as the keys before the last dot and the last key. The
tables on the way are made by dotted keys if they are missing. -/
def Table.insert? (key : String) (value : Value) : List String → Table → Option Table
  | [], table => if (table.get? key).isSome then none else some (table.set key value)
  | step :: rest, table =>
    match table.get? step with
    | none => do
      let inner ← Table.insert? key value rest []
      some (table.set step (.table .dotted inner))
    | some (.table .dotted fields) => do
      let inner ← Table.insert? key value rest fields
      some (table.set step (.table .dotted inner))
    | some (.table .parent fields) =>
      if rest.isEmpty then none
      else do
        let inner ← Table.insert? key value rest fields
        some (table.set step (.table .parent inner))
    | some (.tables elements) =>
      if rest.isEmpty then none
      else do
        let elements ← changeLast? (Table.insert? key value rest) elements
        some (table.set step (.tables elements))
    | some _ => none

/-- Changes the table that a header's path leads to. Tables on the way are made if they are
missing; an array of tables stands for its last element. -/
def Table.changeAt? (change : Table → Option Table) : List String → Table → Option Table
  | [], table => change table
  | step :: rest, table =>
    match table.get? step with
    | none => do
      let inner ← Table.changeAt? change rest []
      some (table.set step (.table .parent inner))
    | some (.table origin fields) =>
      if origin = .braces then none
      else do
        let inner ← Table.changeAt? change rest fields
        some (table.set step (.table origin inner))
    | some (.tables elements) => do
      let elements ← changeLast? (Table.changeAt? change rest) elements
      some (table.set step (.tables elements))
    | some _ => none

/-- A key with dots, as its parts. There is at least one. -/
structure Key where
  path : List String
  last : String
deriving DecidableEq, Repr

/-- Adds several values under dotted keys, in order. -/
def Table.insertAll? (pairs : List (Key × Value)) (table : Table) : Option Table :=
  pairs.foldlM (fun table (key, value) => Table.insert? key.last value key.path table) table

/-- Opens the table that a header names and adds the values under that header. A table that was
only the parent of others may be opened, once. -/
def Table.open? (key : Key) (pairs : List (Key × Value)) (table : Table) : Option Table :=
  table.changeAt? (fun parent =>
    match parent.get? key.last with
    | none => do some (parent.set key.last (.table .header (← Table.insertAll? pairs [])))
    | some (.table .parent fields) => do
      some (parent.set key.last (.table .header (← Table.insertAll? pairs fields)))
    | some _ => none) key.path

/-- Adds an element with some values to the array of tables that a header names. -/
def Table.append? (key : Key) (pairs : List (Key × Value)) (table : Table) : Option Table :=
  table.changeAt? (fun parent => do
    let element ← Table.insertAll? pairs []
    match parent.get? key.last with
    | none => some (parent.set key.last (.tables [element]))
    | some (.tables elements) => some (parent.set key.last (.tables (elements ++ [element])))
    | some _ => none) key.path

end Dynascope.Toml
