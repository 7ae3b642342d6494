import Missive.Toml.Scalar

/-!
# Tables under construction

A TOML document fills its tables piece by piece: a header opens a table, a key with dots reaches
into tables below the open one. A table that was only passed through on the way to another one
may still be opened, one that a key with dots has made may only be extended by such keys, and
nothing is ever defined twice. `Toml.Item` records how a table came about.
-/

namespace Missive.Toml

/-- How a table came about. -/
inductive Origin where
  /-- A header, or the document itself. -/
  | header
  /-- A header of a table below it. -/
  | passing
  /-- A key with dots. -/
  | dotted
  deriving DecidableEq, Repr

/-- What stands under a key of a table under construction. -/
inductive Item where
  | value (value : Toml)
  | table (origin : Origin) (entries : List (String × Item))
  /-- An array of tables, the last one first. -/
  | tables (elements : List (List (String × Item)))

/-- The entries of a table under construction. -/
abbrev Entries := List (String × Item)

namespace Entries

/-- Puts an item under a key, in place of what stands there. -/
def put (key : String) (item : Item) : Entries → Entries
  | [] => [(key, item)]
  | (other, kept) :: entries =>
    if other = key then (key, item) :: entries else (other, kept) :: put key item entries

/--
Adds a value under a key with dots, given as a path and a last key. `origin` is how the table
that holds the entries came about, and `nested` says whether the path has led into it. A table
that a path leads into must have been made by a key with dots.
-/
def add (origin : Origin) (nested : Bool) :
    (path : List String) → (key : String) → Toml → Entries → Option Entries
  | [], key, value, entries =>
    if (origin == .dotted) = nested ∧ (entries.lookup key).isNone then
      some (put key (.value value) entries)
    else none
  | name :: path, key, value, entries =>
    match entries.lookup name with
    | none => do
      let below ← add .dotted true path key value []
      return put name (.table .dotted below) entries
    | some (.value _) => none
    | some (.table .header _) => none
    | some (.table origin below) => do
      let below ← add origin true path key value below
      return put name (.table origin below) entries
    | some (.tables []) => none
    | some (.tables (last :: earlier)) => do
      let last ← add .header true path key value last
      return put name (.tables (last :: earlier)) entries

/-- Changes the entries of the table at the end of a path of headers. -/
def change (update : Origin → Entries → Option (Origin × Entries)) :
    (path : List String) → Origin → Entries → Option (Origin × Entries)
  | [], origin, entries => update origin entries
  | name :: path, origin, entries =>
    match entries.lookup name with
    | none => do
      let (made, below) ← change update path .passing []
      return (origin, put name (.table made below) entries)
    | some (.value _) => none
    | some (.table inner below) => do
      let (inner, below) ← change update path inner below
      return (origin, put name (.table inner below) entries)
    | some (.tables []) => none
    | some (.tables (last :: earlier)) => do
      let (_, last) ← change update path .header last
      return (origin, put name (.tables (last :: earlier)) entries)

/-- Opens the table under a key. -/
def openTable (key : String) (origin : Origin) (entries : Entries) :
    Option (Origin × Entries) :=
  match entries.lookup key with
  | none => some (origin, put key (.table .header []) entries)
  | some (.table .passing below) => some (origin, put key (.table .header below) entries)
  | some _ => none

/-- Begins the next element of the array of tables under a key. -/
def openElement (key : String) (origin : Origin) (entries : Entries) :
    Option (Origin × Entries) :=
  match entries.lookup key with
  | none => some (origin, put key (.tables [[]]) entries)
  | some (.tables elements) => some (origin, put key (.tables ([] :: elements)) entries)
  | some _ => none

mutual

/-- The finished value of an item. -/
def finishItem : Item → Toml
  | .value value => value
  | .table _ entries => .table (finish entries)
  | .tables elements => .array (finishElements elements).reverse

/-- The finished entries of a table. -/
def finish : List (String × Item) → List (String × Toml)
  | [] => []
  | (key, item) :: entries => (key, finishItem item) :: finish entries

/-- The finished tables of an array, in the same order. -/
def finishElements : List (List (String × Item)) → List Toml
  | [] => []
  | entries :: elements => .table (finish entries) :: finishElements elements

end

end Entries

end Missive.Toml
