import Memsift.Toml

/-!
# Tables under construction

While a text is read, its tables are added to from several places: under their headers, through dotted keys, and
through the headers of the tables inside them.  A table has one header at most, a dotted key does not add to a table
that has a header, and no key is given twice.
-/

namespace Memsift.Toml

/-- How a table came about: by its own header or in braces, by the header of a table inside it, or by a dotted
key. -/
inductive Origin where
  | declared | implied | dotted
deriving DecidableEq

/-- What a key stands for so far: a value, a table, or the tables under one repeated header. -/
inductive Node where
  | value (v : Toml)
  | table (origin : Origin) (entries : List (String × Node))
  | tables (rows : List (List (String × Node)))

/-- The entries of a table so far. -/
abbrev Entries := List (String × Node)

namespace Entries

/-- Puts a node in place of the one that a key has. -/
def replace (entries : Entries) (key : String) (node : Node) : Entries :=
  entries.map fun (k, old) => (k, if k = key then node else old)

/-- Changes the table at the end of a path, which is made as far as it is missing.  Of the tables under a repeated
header the last one is meant. -/
def update (dotted : Bool) (change : Origin → Entries → Option Entries) :
    List String → Origin → Entries → Option Entries
  | [], origin, entries => change origin entries
  | key :: path, _, entries =>
    match entries.lookup key with
    | none =>
      let origin : Origin := if dotted then .dotted else .implied
      (update dotted change path origin []).map fun inner => entries ++ [(key, .table origin inner)]
    | some (.table origin inner) =>
      if dotted && origin == .declared then none
      else (update dotted change path origin inner).map fun inner => entries.replace key (.table origin inner)
    | some (.tables rows) =>
      match rows.getLast? with
      | some row =>
        (update dotted change path .declared row).map fun row =>
          entries.replace key (.tables (rows.dropLast ++ [row]))
      | none => none
    | some (.value _) => none

/-- Gives a value to a dotted key of a table.  A table that a header implied is not added to through a dotted
key. -/
def insert (entries : Entries) (path : List String) (key : String) (v : Toml) : Option Entries :=
  entries.update true (fun origin inner =>
    if (origin == .dotted) == path.isEmpty || (inner.lookup key).isSome then none
    else some (inner ++ [(key, .value v)])) path .declared

/-- Gives a value to a dotted key of the table with a header. -/
def insertUnder (entries : Entries) (header path : List String) (key : String) (v : Toml) : Option Entries :=
  entries.update false (fun _ inner => inner.insert path key v) header .declared

/-- Declares the table with a header. -/
def declare (entries : Entries) (path : List String) (key : String) : Option Entries :=
  entries.update false (fun _ inner =>
    match inner.lookup key with
    | none => some (inner ++ [(key, .table .declared [])])
    | some (.table .implied old) => some (inner.replace key (.table .declared old))
    | some _ => none) path .declared

/-- Adds a table under a repeated header. -/
def addRow (entries : Entries) (path : List String) (key : String) : Option Entries :=
  entries.update false (fun _ inner =>
    match inner.lookup key with
    | none => some (inner ++ [(key, .tables [[]])])
    | some (.tables rows) => some (inner.replace key (.tables (rows ++ [[]])))
    | some _ => none) path .declared

end Entries

mutual

/-- What a finished node stands for. -/
def Node.finish : Node → Toml
  | .value v => v
  | .table _ entries => .table (finishEntries entries)
  | .tables rows => .array (finishRows rows)

def finishEntries : Entries → List (String × Toml)
  | [] => []
  | (key, node) :: entries => (key, node.finish) :: finishEntries entries

def finishRows : List Entries → List Toml
  | [] => []
  | row :: rows => .table (finishEntries row) :: finishRows rows

end

/-- The table that finished entries make up. -/
def Entries.finish (entries : Entries) : Toml := .table (finishEntries entries)

end Memsift.Toml
