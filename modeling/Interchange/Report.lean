import Interchange.Value
import Interchange.Text.Quoted
/-!
Reports collect every failing place of a value under its path, in ascending order of paths.
A path joins field names by dots and attaches positions in brackets. Combining reports
appends descriptors under a shared path and never drops one.
-/
namespace Interchange

-- An element of a list has its number, a part under a key the key. Readers, writers and checks make
-- no other position.
inductive Position where
  | index (number : Nat)
  | key (name : String)
  deriving DecidableEq, Repr

def Position.text : Position → String
  | .index number => "[" ++ toString number ++ "]"
  | .key name => "[" ++ Text.quote name ++ "]"

inductive Category where
  | missing
  | incompatible
  | unknownCase
  | rejected
  deriving DecidableEq, Repr

def Category.name : Category → String
  | .missing => "missing"
  | .incompatible => "incompatible"
  | .unknownCase => "unknown_case"
  | .rejected => "rejected"

-- One problem of one field. `raw` is absent when the key was, and the locale is
-- the one that a message about it is to be written in.
structure Descriptor where
  category : Category
  code : Option String
  wireKey : String
  raw : Option Value
  locale : String

/-- A path inside a field: positions attach directly, names after a dot. -/
def joinPath (outer inner : String) : String :=
  if inner.toList.head? = some '[' then outer ++ inner else outer ++ "." ++ inner

structure Report where
  entries : List (String × List Descriptor)
  deriving Inhabited

namespace Report

def empty : Report := ⟨[]⟩

def isEmpty (report : Report) : Bool := report.entries.isEmpty

/-- The number of failing paths. -/
def size (report : Report) : Nat := report.entries.length

def get? (path : String) (report : Report) : Option (List Descriptor) :=
  report.entries.lookup path

def paths (report : Report) : List String := report.entries.map (·.1)

-- Keeps ascending order; descriptors of a path that is already there go behind the earlier ones.
def file (path : String) (descriptors : List Descriptor) :
    List (String × List Descriptor) → List (String × List Descriptor)
  | [] => [(path, descriptors)]
  | entry :: rest =>
    if entry.1 = path then (path, entry.2 ++ descriptors) :: rest
    else if path < entry.1 then (path, descriptors) :: entry :: rest
    else entry :: file path descriptors rest

def push (path : String) (descriptor : Descriptor) (report : Report) : Report :=
  ⟨file path [descriptor] report.entries⟩

def single (path : String) (descriptor : Descriptor) : Report := empty.push path descriptor

def merge (left right : Report) : Report :=
  ⟨right.entries.foldl (fun entries entry => file entry.1 entry.2 entries) left.entries⟩

/-- Files every entry of `nested` under a path inside `outer`. -/
def absorb (outer : String) (nested report : Report) : Report :=
  ⟨nested.entries.foldl (fun entries entry => file (joinPath outer entry.1) entry.2 entries)
    report.entries⟩

/-- The failing paths with their categories, as a message lists them. -/
def listing (report : Report) : String :=
  String.intercalate ", " (report.entries.map fun entry =>
    entry.1 ++ " (" ++ String.intercalate ", " (entry.2.map (·.category.name)) ++ ")")

end Report

end Interchange
