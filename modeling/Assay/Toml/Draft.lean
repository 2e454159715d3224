import Assay.Toml.Value

/-!
# Tables under construction

While a document is read, tables grow from headers and dotted keys, and how a table came about
decides how it may grow further. A header opens a table once, unless the table was only implied by
the headers of its subtables. Dotted keys extend tables made by dotted keys, and no inline table is
ever extended.
-/

namespace Assay.Toml

/-- How a table came about. -/
inductive Origin
  /-- It was opened by its own header, or is the document itself. -/
  | header
  /-- A header of a table inside it implied it. -/
  | implied
  /-- A dotted key implied it. -/
  | dotted
deriving DecidableEq

/-- A value of a document that is not complete. -/
inductive Draft
  | value (v : Value)
  | table (origin : Origin) (entries : List (String × Draft))
  /-- The tables of headers in double brackets. -/
  | tables (elements : List (List (String × Draft)))

/-- The entries of a table under construction. -/
abbrev Entries := List (String × Draft)

mutual

/-- The finished value. -/
def Draft.finish : Draft → Value
  | .value v => v
  | .table _ entries => .table (finishEntries entries)
  | .tables elements => .array (finishElements elements)

/-- The finished entries. -/
def finishEntries : List (String × Draft) → Table
  | [] => []
  | (key, draft) :: rest => (key, draft.finish) :: finishEntries rest

/-- The finished tables of an array. -/
def finishElements : List (List (String × Draft)) → List Value
  | [] => []
  | entries :: rest => .table (finishEntries entries) :: finishElements rest

end

namespace Entries

/-- The entries with another value for a key, which keeps its place. -/
def replace (entries : Entries) (key : String) (draft : Draft) : Entries :=
  entries.map fun (k, d) => (k, if k = key then draft else d)

/-- Changes the table at a path, which is made of missing tables as it goes; `change` is told how
the table came about. Dotted keys do not enter tables with a header of their own. -/
def changeAt (isDotted : Bool) (change : Origin → Entries → Option Entries) :
    (path : List String) → (origin : Origin) → Entries → Option Entries
  | [], origin, entries => change origin entries
  | key :: path, _, entries =>
    match entries.lookup key with
    | none => do
      let origin := if isDotted then Origin.dotted else .implied
      let inner ← changeAt isDotted change path origin []
      return entries ++ [(key, .table origin inner)]
    | some (.table origin inner) =>
      if isDotted && origin = .header then none
      else do
        let inner ← changeAt isDotted change path origin inner
        return entries.replace key (.table origin inner)
    | some (.tables elements) => do
      let inner ← changeAt isDotted change path .header (← elements.getLast?)
      return entries.replace key (.tables (elements.dropLast ++ [inner]))
    | some (.value _) => none

/-- Adds a value under a dotted key, of which `path` is all but the last part. -/
def addAt (path : List String) (key : String) (value : Value) (entries : Entries) :
    Option Entries :=
  let add (origin : Origin) (entries : Entries) : Option Entries :=
    if decide (origin = .dotted) == path.isEmpty then none
    else if (entries.lookup key).isSome then none
    else some (entries ++ [(key, .value value)])
  changeAt true add path .header entries

/-- Opens the table of a header. -/
def openTable (path : List String) (key : String) (entries : Entries) : Option Entries :=
  let opened (_ : Origin) (entries : Entries) : Option Entries :=
    match entries.lookup key with
    | none => some (entries ++ [(key, .table .header [])])
    | some (.table .implied inner) =>
      some (entries.filter (fun entry => entry.1 ≠ key) ++ [(key, .table .header inner)])
    | some _ => none
  changeAt false opened path .header entries

/-- Opens one more table of a header in double brackets. -/
def openElement (path : List String) (key : String) (entries : Entries) : Option Entries :=
  let opened (_ : Origin) (entries : Entries) : Option Entries :=
    match entries.lookup key with
    | none => some (entries ++ [(key, .tables [[]])])
    | some (.tables elements) => some (entries.replace key (.tables (elements ++ [[]])))
    | some _ => none
  changeAt false opened path .header entries

end Entries

end Assay.Toml
