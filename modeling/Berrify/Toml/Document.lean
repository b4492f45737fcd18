/-!
# TOML documents

`Toml.Value` is what a TOML text denotes. While a document is read, its tables are `Node`s that also
know how they came to be : a table with a header of its own cannot get a second one, a table made by
dotted keys cannot get any, and a value is closed for good. `Entries.addPair`, `Entries.addHeader`
and `Entries.addElement` add a line to a document or refuse it; `Entries.toValue` forgets the
history.
-/

namespace Berrify.Toml

/-- TOML values. The value of a fractional number is not kept. -/
inductive Value where
  | string (text : String)
  | integer (value : Int)
  | float
  | boolean (value : Bool)
  | array (items : List Value)
  | table (entries : List (String × Value))

/-- How a table came to be. -/
inductive Origin where
  /-- By a header, or as an element of an array of tables. -/
  | header
  /-- As the parent of a table with a header. -/
  | parent
  /-- By dotted keys. -/
  | dotted
deriving DecidableEq, Repr

/-- Part of a document that is being read. -/
inductive Node where
  | value (value : Value)
  | table (origin : Origin) (entries : List (String × Node))
  /-- An array of tables. -/
  | tables (elements : List (List (String × Node)))

/-- The entries of a table that is being read. -/
abbrev Entries := List (String × Node)

namespace Entries

/-- Puts a node for a key : in place if the key is there, else at the end. -/
def put (key : String) (node : Node) : Entries → Entries
  | [] => [(key, node)]
  | (other, old) :: rest =>
    if other == key then (key, node) :: rest else (other, old) :: put key node rest

/-- Changes the table at the end of a path, making the tables on the way that are missing. A path of
dotted keys must not lead into a table with a header. -/
def changeAt (dotted : Bool) (change : Origin → Entries → Option Entries) :
    List String → Origin → Entries → Option Entries
  | [], origin, entries => change origin entries
  | key :: path, _, entries =>
    match entries.lookup key with
    | none =>
      let origin := if dotted then .dotted else .parent
      (changeAt dotted change path origin []).map fun inner => entries.put key (.table origin inner)
    | some (.value _) => none
    | some (.table origin inner) =>
      if dotted && origin == .header then none
      else (changeAt dotted change path origin inner).map fun inner =>
        entries.put key (.table origin inner)
    | some (.tables elements) =>
      (changeAt dotted change path .header (elements.getLast?.getD [])).map fun inner =>
        entries.put key (.tables (elements.dropLast ++ [inner]))

/-- Adds a value under a dotted key, the last part of which is given apart. The table it goes into
must be new or made by dotted keys too. -/
def addPair (path : List String) (key : String) (value : Value) (origin : Origin)
    (entries : Entries) : Option Entries :=
  changeAt true (fun origin inner =>
    if (origin == .dotted) == path.isEmpty then none
    else if (inner.lookup key).isSome then none
    else some (inner ++ [(key, .value value)])) path origin entries

/-- Adds a value below the table of a header. -/
def addPairBelow (header path : List String) (key : String) (value : Value) (entries : Entries) :
    Option Entries :=
  changeAt false (addPair path key value) header .header entries

/-- Adds a table with a header, the last part of which is given apart. -/
def addHeader (path : List String) (key : String) (entries : Entries) : Option Entries :=
  changeAt false (fun _ inner =>
    match inner.lookup key with
    | none => some (inner ++ [(key, .table .header [])])
    | some (.table .parent old) => some (inner.put key (.table .header old))
    | some _ => none) path .header entries

/-- Adds an element to an array of tables. -/
def addElement (path : List String) (key : String) (entries : Entries) : Option Entries :=
  changeAt false (fun _ inner =>
    match inner.lookup key with
    | none => some (inner ++ [(key, .tables [[]])])
    | some (.tables elements) => some (inner.put key (.tables (elements ++ [[]])))
    | some _ => none) path .header entries

end Entries

mutual
/-- The value that a node holds. -/
def Node.toValue : Node → Value
  | .value v => v
  | .table _ entries => .table (pairsOf entries)
  | .tables elements => .array (tablesOf elements)
/-- The entries of a table. -/
def pairsOf : List (String × Node) → List (String × Value)
  | [] => []
  | (key, node) :: rest => (key, node.toValue) :: pairsOf rest
/-- The elements of an array of tables. -/
def tablesOf : List (List (String × Node)) → List Value
  | [] => []
  | entries :: rest => .table (pairsOf entries) :: tablesOf rest
end

/-- The table that entries make up. -/
def Entries.toValue (entries : Entries) : Value := .table (pairsOf entries)

end Berrify.Toml
