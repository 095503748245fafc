/-!
Entries of a map in the order of their keys' first arrival. Setting a key replaces its value where
it stands, so a repeated key keeps its first place and its last value.
-/
namespace Interchange.Entries

def set {α : Type u} (key : String) (value : α) : List (String × α) → List (String × α)
  | [] => [(key, value)]
  | entry :: rest =>
    if entry.1 = key then (key, value) :: rest else entry :: set key value rest

/-- Sets all entries one after the other. -/
def ofList {α : Type u} (entries : List (String × α)) : List (String × α) :=
  entries.foldl (fun done entry => set entry.1 entry.2 done) []

def has {α : Type u} (key : String) (entries : List (String × α)) : Bool :=
  entries.any fun entry => entry.1 == key

end Interchange.Entries
