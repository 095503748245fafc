import Interchange.Entries
import Interchange.Number.Binary64
/-!
TOML documents as trees of tables. Each key is defined once. A table may be named before it is
opened, by a header below it or by a dotted key, and how it came about decides who may still
add to it: a header opens what another header implied, and a dotted key goes on in what
dotted keys made. Tables in braces are complete as they stand.
-/
namespace Interchange.Toml

inductive Origin where
  | implied
  | dotted
  | opened
  | inline
  deriving DecidableEq, Repr

inductive Node where
  | str (text : String)
  | integer (number : Int)
  | float (number : Binary64)
  | bool (flag : Bool)
  | date
  | array (items : List Node)
  | table (origin : Origin) (entries : List (String × Node))
  | tables (elements : List (List (String × Node)))
  deriving Inhabited

abbrev Table := List (String × Node)

-- A line of a document that is not blank.
inductive Statement where
  | header (path : List String) (key : String)
  | element (path : List String) (key : String)
  | pair (path : List String) (key : String) (node : Node)

def define (key : String) (node : Node) (table : Table) : Option Table :=
  if Entries.has key table then none else some (table ++ [(key, node)])

/-- Defines a dotted key inside a table. Only a table of dotted keys may gain a key in this way,
but the path to it may lead through the last element of a list of tables. -/
def assignWithin (origin : Origin) (table : Table) (key : String) (node : Node) :
    List String → Option Table
  | [] => if origin = .dotted then define key node table else none
  | step :: path =>
    match table.lookup step with
    | none => do
      let inner ← assignWithin .dotted [] key node path
      return table ++ [(step, .table .dotted inner)]
    | some (.table reached inside) =>
      if reached = .implied ∨ reached = .dotted then do
        let inner ← assignWithin reached inside key node path
        return Entries.set step (.table reached inner) table
      else none
    | some (.tables elements) =>
      match elements.getLast? with
      | none => none
      | some last => do
        let inner ← assignWithin .opened last key node path
        return Entries.set step (.tables (elements.dropLast ++ [inner])) table
    | some _ => none

/-- Defines a key of the table that is open. -/
def assign (table : Table) (path : List String) (key : String) (node : Node) : Option Table :=
  match path with
  | [] => define key node table
  | path => assignWithin .opened table key node path

/-- Changes the table that a header's path leads to, which may stand in the last element of a
list of tables. -/
def descend {α : Type} (change : Table → Option (Table × α)) (table : Table) :
    List String → Option (Table × α)
  | [] => change table
  | step :: path =>
    match table.lookup step with
    | none => do
      let (inner, result) ← descend change [] path
      return (table ++ [(step, .table .implied inner)], result)
    | some (.table origin inside) =>
      if origin = .inline then none
      else do
        let (inner, result) ← descend change inside path
        return (Entries.set step (.table origin inner) table, result)
    | some (.tables elements) =>
      match elements.getLast? with
      | none => none
      | some last => do
        let (inner, result) ← descend change last path
        return (Entries.set step (.tables (elements.dropLast ++ [inner])) table, result)
    | some _ => none

-- The table that statements add to, with its place in the document once it has a header.
structure Building where
  root : Table
  place : Option (Bool × List String × String)
  current : Table

namespace Building

def start : Building := ⟨[], none, []⟩

/-- Puts the open table in its place. -/
def close (building : Building) : Option Table :=
  match building.place with
  | none => some building.current
  | some (false, path, key) => do
    let (root, _) ← descend (fun parent => do
      let parent ← define key (.table .opened building.current) parent
      return (parent, ())) building.root path
    return root
  | some (true, path, key) => do
    let (root, _) ← descend (fun parent =>
      match parent.lookup key with
      | some (.tables elements) =>
        some (Entries.set key (.tables (elements ++ [building.current])) parent, ())
      | _ => none) building.root path
    return root

/-- Opens a table, taking over what headers below it have already put into it. -/
def openTable (root : Table) (path : List String) (key : String) : Option Building := do
  let (root, current) ← descend (fun parent =>
    match parent.lookup key with
    | none => some (parent, [])
    | some (.table .implied inside) => some (parent.filter (fun entry => entry.1 ≠ key), inside)
    | some _ => none) root path
  return ⟨root, some (false, path, key), current⟩

def openElement (root : Table) (path : List String) (key : String) : Option Building := do
  let (root, _) ← descend (fun parent =>
    match parent.lookup key with
    | none => some (parent ++ [(key, .tables [])], ())
    | some (.tables _) => some (parent, ())
    | some _ => none) root path
  return ⟨root, some (true, path, key), []⟩

def step (building : Building) : Statement → Option Building
  | .header path key => do openTable (← building.close) path key
  | .element path key => do openElement (← building.close) path key
  | .pair path key node => do
    return { building with current := ← assign building.current path key node }

end Building

/-- The root table of a document, unless its statements define something twice. -/
def build (statements : List Statement) : Option Table := do
  let building ← statements.foldlM Building.step .start
  building.close

end Interchange.Toml
